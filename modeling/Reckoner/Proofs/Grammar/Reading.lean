import Reckoner.Proofs.Grammar.Text

/-!
# Reading a text

Signs are folded and products inserted in two passes over the whole text. Both look only at
neighbouring tokens, so their joint result for the rest of a text depends on what was read before
only through the last token: this is `Token.resolve`, and a phrase is read from it part by part.

## Main results

* `resolve_words`: the words of an allowed phrase are resolved to the tokens it means.
* `exists_words_of_resolve`: words that are resolved to the tokens of a phrase are those of an
  allowed phrase that means it. The induction is on the resolved phrase, with the last token before
  it and the words behind it left open.
* `read_eq_ok_iff`: a text is read exactly if it spells an allowed expression, and as the tokens of
  that expression.
-/

namespace Reckoner

namespace Token

/-! ## Signs and products in one pass -/

/-- The product that is written out between two neighbours. -/
def gap (writesProducts : Bool) : Option Token → Option Token → List Token
  | some left, some right =>
      if writesProducts && multiplies left right then [ofOperator .product] else []
  | _, _ => []

/-- The second pass of reading. -/
def writeProducts (writesProducts : Bool) (tokens : List Token) : List Token :=
  if writesProducts then insertProducts tokens else tokens

/-- What becomes of the unsigned tokens behind `previous`. -/
def resolve (writesProducts : Bool) (previous : Option Token) (tokens : List Token) : List Token :=
  let signed := foldSigns previous tokens
  gap writesProducts previous signed.head? ++ writeProducts writesProducts signed

section Resolve

variable {writesProducts : Bool} {previous : Option Token} {rest : List Token}

theorem gap_of_opensOperand (h : opensOperand previous = true) (next : Option Token) :
    gap writesProducts previous next = [] := by
  cases previous with
  | none => rfl
  | some left =>
      cases next with
      | none => rfl
      | some right =>
          cases left with
          | number value => cases h
          | symbol text =>
              have hclosing : symbol text ≠ closing := by
                intro hc
                rw [hc] at h
                revert h
                decide
              simp [gap, multiplies, isNumber, hclosing]

theorem gap_ofOperator (op : Operator) :
    gap writesProducts previous (some (ofOperator op)) = [] := by
  cases previous with
  | none => rfl
  | some left =>
      have hopening : ofOperator op ≠ opening := by cases op <;> decide
      have hnumber : (ofOperator op).isNumber = false := rfl
      simp [gap, multiplies, hopening, hnumber]

theorem gap_closing : gap writesProducts previous (some closing) = [] := by
  cases previous with
  | none => rfl
  | some left => simp [gap, multiplies, isNumber, closing, opening]

/-- A product is written out, or nothing is. -/
theorem gap_cases (writesProducts : Bool) (previous next : Option Token) :
    gap writesProducts previous next = [] ∨
      (gap writesProducts previous next = [ofOperator .product] ∧
        ∃ left right, previous = some left ∧ next = some right ∧
          writesProducts = true ∧ multiplies left right = true) := by
  match previous, next with
  | none, _ => exact Or.inl rfl
  | some left, none => exact Or.inl rfl
  | some left, some right =>
      by_cases h : (writesProducts && multiplies left right) = true
      · have hboth := Bool.and_eq_true_iff.1 h
        exact Or.inr ⟨if_pos h, left, right, rfl, rfl, hboth.1, hboth.2⟩
      · exact Or.inl (if_neg h)

theorem writeProducts_cons (token : Token) (tokens : List Token) :
    writeProducts writesProducts (token :: tokens) =
      token :: (gap writesProducts (some token) tokens.head? ++
        writeProducts writesProducts tokens) := by
  cases writesProducts with
  | false => cases tokens <;> rfl
  | true =>
      rw [writeProducts, if_pos rfl, insertProducts_cons, writeProducts, if_pos rfl]
      cases tokens with
      | nil => rfl
      | cons next tokens =>
          rw [List.head?_cons]
          cases hm : multiplies token next <;> simp [gap, hm]

theorem resolve_nil : resolve writesProducts previous [] = [] := by
  cases previous <;> cases writesProducts <;> rfl

/-- What does not become a sign is kept. -/
theorem foldSigns_cons {token : Token}
    (h : opensOperand previous = false ∨ token.isSign = false ∨
      ∀ value others, rest ≠ number value :: others) :
    foldSigns previous (token :: rest) = token :: foldSigns (some token) rest := by
  cases token with
  | number value => rw [foldSigns]; simp
  | symbol text =>
      cases rest with
      | nil => rfl
      | cons next others =>
          cases next with
          | symbol text' => rw [foldSigns]; simp
          | number value =>
              have hnot : ¬ (opensOperand previous && (symbol text).isSign) = true := by
                rcases h with h | h | h
                · simp [h]
                · simp [h]
                · exact absurd rfl (h value others)
              rw [foldSigns, if_neg hnot]

/-- In front of a token that does not become a sign, a product may be written out. -/
theorem resolve_cons {token : Token}
    (h : opensOperand previous = false ∨ token.isSign = false ∨
      ∀ value others, rest ≠ number value :: others) :
    resolve writesProducts previous (token :: rest) =
      gap writesProducts previous (some token) ++
        token :: resolve writesProducts (some token) rest := by
  rw [resolve, foldSigns_cons h, List.head?_cons, writeProducts_cons, resolve]

theorem resolve_closing :
    resolve writesProducts previous (closing :: rest) =
      closing :: resolve writesProducts (some closing) rest := by
  rw [resolve_cons (Or.inr (Or.inl (by decide))), gap_closing, List.nil_append]

/-- An operator behind an operand stays an operator. -/
theorem resolve_ofOperator (h : opensOperand previous = false) (op : Operator) :
    resolve writesProducts previous (ofOperator op :: rest) =
      ofOperator op :: resolve writesProducts (some (ofOperator op)) rest := by
  rw [resolve_cons (Or.inl h), gap_ofOperator, List.nil_append]

/-- A sign in front of a number becomes part of it. -/
theorem resolve_signed (h : opensOperand previous = true) (sign : Sign) (numeral : Numeral) :
    resolve writesProducts previous
        (ofOperator sign.operator :: number numeral.value :: rest) =
      number (SignedNumeral.value ⟨some sign, numeral⟩) ::
        resolve writesProducts (some (number (SignedNumeral.value ⟨some sign, numeral⟩))) rest := by
  have hfold : foldSigns previous (ofOperator sign.operator :: number numeral.value :: rest) =
      number (SignedNumeral.value ⟨some sign, numeral⟩) ::
        foldSigns (some (number (SignedNumeral.value ⟨some sign, numeral⟩))) rest := by
    rw [ofOperator, foldSigns]
    cases sign with
    | plus =>
        rw [if_pos (by rw [h]; decide)]
        rfl
    | minus =>
        rw [if_pos (by rw [h]; decide)]
        rfl
  rw [resolve, hfold, gap_of_opensOperand h, List.nil_append, writeProducts_cons, resolve]

end Resolve

end Token

namespace Phrase

open Token

/-! ## What an allowed phrase is read as -/

/-- The words of a phrase are resolved to the tokens it means, whatever stands around it. A sign at
its start is one only where an operand may begin. -/
def IsResolved (writesProducts : Bool) {part : Part}
    (phrase : Phrase SignedNumeral (Option Operator) part) : Prop :=
  ∀ (previous : Option Token) (rest : List Token),
    (phrase.startsSigned = true → opensOperand previous = true) →
      resolve writesProducts previous (phrase.words.map Word.token ++ rest) =
        gap writesProducts previous (some phrase.meaning.firstToken) ++
          (phrase.meaning.tokens ++ resolve writesProducts (some phrase.meaning.lastToken) rest)

section Resolved

variable {writesProducts : Bool}

theorem isResolved_leaf (numeral : SignedNumeral) : (leaf numeral).IsResolved writesProducts := by
  intro previous rest hsigned
  obtain ⟨sign, numeral⟩ := numeral
  cases sign with
  | none => exact resolve_cons (Or.inr (Or.inl rfl))
  | some sign =>
      have hopens := hsigned rfl
      rw [gap_of_opensOperand hopens]
      exact resolve_signed hopens sign numeral

theorem IsResolved.group {inner : Phrase SignedNumeral (Option Operator) .expression}
    (h : inner.IsResolved writesProducts) : (group inner).IsResolved writesProducts := by
  intro previous rest _
  have hinner := h (some .opening) (.closing :: rest) fun _ => by decide
  rw [gap_of_opensOperand (by decide), List.nil_append, resolve_closing] at hinner
  rw [words_group, List.map_cons, List.map_append, List.cons_append, List.append_assoc]
  show resolve writesProducts previous (.opening :: (inner.words.map Word.token ++
    (.closing :: rest))) = gap writesProducts previous (some .opening) ++
      (.opening :: (inner.meaning.tokens ++ [.closing]) ++
        resolve writesProducts (some .closing) rest)
  rw [resolve_cons (Or.inr (Or.inl (by decide))), hinner]
  simp

variable {left : Phrase SignedNumeral (Option Operator) .expression}
  {right : Phrase SignedNumeral (Option Operator) .operand} {how : Option Operator}

/-- A join is resolved to its operator, whether it is a word or left out. -/
theorem IsResolved.operator (hright : right.IsResolved writesProducts)
    (hhow : how = none → writesProducts = true ∧
      (left.endsInGroup = true ∨ right.endsInGroup = true) ∧ right.startsSigned = false)
    (rest : List Token) :
    resolve writesProducts (some left.meaning.lastToken)
        ((how.toList.map Word.operator ++ right.words).map Word.token ++ rest) =
      .ofOperator (how.getD .product) :: (right.meaning.tokens ++
        resolve writesProducts (some right.meaning.lastToken) rest) := by
  cases how with
  | some op =>
      have hopens : opensOperand (some (.ofOperator op)) = true := by cases op <;> decide
      show resolve writesProducts _ (.ofOperator op :: (right.words.map Word.token ++ rest)) =
        .ofOperator op :: _
      rw [resolve_ofOperator (opensOperand_lastToken left.meaning), hright _ rest fun _ => hopens,
        gap_of_opensOperand hopens, List.nil_append]
  | none =>
      obtain ⟨hwrites, hgroup, hunsigned⟩ := hhow rfl
      have hmultiplies := (multiplies_lastToken left right).2 hgroup
      show resolve writesProducts _ (right.words.map Word.token ++ rest) =
        .ofOperator .product :: _
      rw [hright _ rest (by rw [hunsigned]; intro h; cases h), gap, hwrites, hmultiplies]
      rfl

theorem IsResolved.join (hleft : left.IsResolved writesProducts)
    (hright : right.IsResolved writesProducts)
    (hhow : how = none → writesProducts = true ∧
      (left.endsInGroup = true ∨ right.endsInGroup = true) ∧ right.startsSigned = false) :
    (join left how right).IsResolved writesProducts := by
  intro previous rest hsigned
  rw [words_join, List.map_append, List.append_assoc, hleft previous _ hsigned,
    hright.operator hhow]
  show _ = gap writesProducts previous (some left.meaning.firstToken) ++
    (left.meaning.tokens ++ .ofOperator (how.getD .product) :: right.meaning.tokens ++
      resolve writesProducts (some right.meaning.lastToken) rest)
  simp

end Resolved

theorem resolve_words {writesProducts : Bool} {part : Part}
    {phrase : Phrase SignedNumeral (Option Operator) part}
    (hallowed : phrase.IsAllowed writesProducts) : phrase.IsResolved writesProducts := by
  induction phrase with
  | leaf numeral => exact isResolved_leaf numeral
  | group inner ih => exact (ih hallowed).group
  | single operand ih => exact ih hallowed
  | join left how right ihleft ihright =>
      obtain ⟨hleft, hright, hhow⟩ := hallowed
      exact (ihleft hleft).join (ihright hright) hhow

/-! ## What is read as a phrase -/

end Phrase

namespace Word

/-- Different words have different tokens, numerals apart. -/
theorem eq_of_token_eq {word : Word} (other : Word) (h : word.token = other.token)
    (hother : other.isNumeral = false) : word = other := by
  have hoperator : ∀ op : Operator,
      Token.ofOperator op ≠ .opening ∧ Token.ofOperator op ≠ .closing := by
    intro op
    cases op <;> decide
  cases other with
  | numeral n => cases hother
  | operator op =>
      cases word with
      | numeral n => cases h
      | operator op' =>
          have htext : Operator.ofText? op'.text = Operator.ofText? op.text :=
            congrArg Operator.ofText? (Token.symbol.inj h)
          rw [Operator.ofText?_text, Operator.ofText?_text] at htext
          rw [Option.some.inj htext]
      | opening => exact absurd h.symm (hoperator op).1
      | closing => exact absurd h.symm (hoperator op).2
  | opening =>
      cases word with
      | numeral n => cases h
      | operator op => exact absurd h (hoperator op).1
      | opening => rfl
      | closing => exact absurd h (by decide)
  | closing =>
      cases word with
      | numeral n => cases h
      | operator op => exact absurd h (hoperator op).2
      | opening => exact absurd h (by decide)
      | closing => rfl

theorem exists_numeral_of_token_eq {word : Word} {value : Binary64}
    (h : word.token = .number value) : ∃ n : Numeral, word = .numeral n ∧ n.value = value := by
  cases word with
  | numeral n => exact ⟨n, rfl, Token.number.inj h⟩
  | operator op => cases h
  | opening => cases h
  | closing => cases h

/-- The words that can be a sign. -/
theorem exists_sign_of_isSign {word : Word} (h : word.token.isSign = true) :
    ∃ sign : Sign, word = .operator sign.operator := by
  cases word with
  | numeral n => cases h
  | operator op =>
      cases op with
      | sum => exact ⟨.plus, rfl⟩
      | difference => exact ⟨.minus, rfl⟩
      | power | product | quotient => exact absurd h (by decide)
  | opening => exact absurd h (by decide)
  | closing => exact absurd h (by decide)

end Word

namespace Token

section Inversion

variable {writesProducts : Bool} {previous : Option Token} {words : List Word} {head : Token}
  {tail : List Token}

/-- Where an operand may begin, the first resolved token is the first word or a signed numeral. -/
theorem resolve_eq_cons_of_opensOperand (h : opensOperand previous = true)
    (hresolve : resolve writesProducts previous (words.map Word.token) = head :: tail) :
    (∃ word rest, words = word :: rest ∧ head = word.token ∧
        tail = resolve writesProducts (some word.token) (rest.map Word.token)) ∨
      ∃ sign numeral rest, words = .operator (Sign.operator sign) :: .numeral numeral :: rest ∧
        head = .number (SignedNumeral.value ⟨some sign, numeral⟩) ∧
        tail = resolve writesProducts
          (some (.number (SignedNumeral.value ⟨some sign, numeral⟩))) (rest.map Word.token) := by
  cases words with
  | nil =>
      rw [List.map_nil, resolve_nil] at hresolve
      cases hresolve
  | cons word rest =>
      rw [List.map_cons] at hresolve
      by_cases hsign : word.token.isSign = true ∧ ∃ n others, rest = .numeral n :: others
      · obtain ⟨hword, n, others, rfl⟩ := hsign
        obtain ⟨sign, rfl⟩ := Word.exists_sign_of_isSign hword
        obtain ⟨rfl, rfl⟩ := List.cons.inj (hresolve.symm.trans (resolve_signed h sign n))
        exact Or.inr ⟨sign, n, others, rfl, rfl, rfl⟩
      · have hkept : opensOperand previous = false ∨ word.token.isSign = false ∨
            ∀ value others, rest.map Word.token ≠ number value :: others := by
          refine Or.inr ?_
          by_cases hword : word.token.isSign = true
          · refine Or.inr ?_
            intro value others hrest
            obtain ⟨next, others, rfl, hnext, -⟩ := List.map_eq_cons_iff.1 hrest
            obtain ⟨n, rfl, -⟩ := Word.exists_numeral_of_token_eq hnext
            exact hsign ⟨hword, n, others, rfl⟩
          · exact Or.inl (by simpa using hword)
        rw [resolve_cons hkept, gap_of_opensOperand h, List.nil_append] at hresolve
        obtain ⟨rfl, rfl⟩ := List.cons.inj hresolve
        exact Or.inl ⟨word, rest, rfl, rfl, rfl⟩

/-- Behind an operand, the first resolved token is the first word or a product in front of it. -/
theorem resolve_eq_cons_of_not_opensOperand (h : opensOperand previous = false)
    (hresolve : resolve writesProducts previous (words.map Word.token) = head :: tail) :
    ∃ word rest, words = word :: rest ∧
      ((head = word.token ∧
          tail = resolve writesProducts (some word.token) (rest.map Word.token)) ∨
        (gap writesProducts previous (some word.token) = [ofOperator .product] ∧
          head = ofOperator .product ∧ tail.head? = some word.token ∧
          tail = resolve writesProducts (some (ofOperator .product)) (words.map Word.token))) := by
  cases words with
  | nil =>
      rw [List.map_nil, resolve_nil] at hresolve
      cases hresolve
  | cons word rest =>
      refine ⟨word, rest, rfl, ?_⟩
      rw [List.map_cons, resolve_cons (Or.inl h)] at hresolve
      rcases gap_cases writesProducts previous (some word.token) with hgap | ⟨hgap, -⟩
      · rw [hgap, List.nil_append] at hresolve
        obtain ⟨rfl, rfl⟩ := List.cons.inj hresolve
        exact Or.inl ⟨rfl, rfl⟩
      · have hunsigned : word.token.isSign = false := by
          by_contra hsign
          obtain ⟨sign, rfl⟩ := Word.exists_sign_of_isSign (by simpa using hsign)
          rw [Word.token, gap_ofOperator] at hgap
          cases hgap
        rw [hgap, List.singleton_append] at hresolve
        obtain ⟨rfl, rfl⟩ := List.cons.inj hresolve
        refine Or.inr ⟨hgap, rfl, rfl, ?_⟩
        rw [List.map_cons, resolve_cons (Or.inr (Or.inl hunsigned)),
          gap_of_opensOperand (by decide), List.nil_append]

end Inversion

end Token

namespace Phrase

open Token

/-- A sign at the start of a phrase is written like an operator. -/
theorem head?_words_of_startsSigned {part : Part}
    {phrase : Phrase SignedNumeral (Option Operator) part} (h : phrase.startsSigned = true)
    (rest : List Word) : ∃ op, (phrase.words ++ rest).head? = some (.operator op) := by
  induction phrase generalizing rest with
  | leaf numeral =>
      obtain ⟨sign, numeral⟩ := numeral
      cases sign with
      | none => cases h
      | some sign => exact ⟨sign.operator, rfl⟩
  | group inner _ => cases h
  | single operand ih => exact ih h rest
  | join left how right ih _ =>
      rw [words_join, List.append_assoc]
      exact ih h _

/-- Words that are resolved to the tokens of the phrase are, as far as the phrase goes, the words of
an allowed phrase that means it. -/
def HasSource (writesProducts : Bool) {part : Part} (phrase : Phrase Binary64 Operator part) :
    Prop :=
  ∀ (previous : Option Token) (words : List Word) (tail : List Token),
    opensOperand previous = true →
      resolve writesProducts previous (words.map Word.token) = phrase.tokens ++ tail →
        ∃ (source : Phrase SignedNumeral (Option Operator) part) (rest : List Word),
          words = source.words ++ rest ∧ source.IsAllowed writesProducts ∧
            source.meaning = phrase ∧
            tail = resolve writesProducts (some phrase.lastToken) (rest.map Word.token)

section Source

variable {writesProducts : Bool}

theorem hasSource_leaf (value : Binary64) :
    (leaf value : Phrase Binary64 Operator _).HasSource writesProducts := by
  intro previous words tail hopens hresolve
  rcases resolve_eq_cons_of_opensOperand hopens hresolve with
    ⟨word, rest, rfl, hhead, htail⟩ | ⟨sign, n, rest, rfl, hhead, htail⟩
  · obtain ⟨n, rfl, rfl⟩ := Word.exists_numeral_of_token_eq hhead.symm
    exact ⟨leaf ⟨none, n⟩, rest, rfl, trivial, rfl, htail⟩
  · obtain rfl := Token.number.inj hhead
    exact ⟨leaf ⟨some sign, n⟩, rest, rfl, trivial, rfl, htail⟩

theorem HasSource.group {inner : Phrase Binary64 Operator .expression}
    (h : inner.HasSource writesProducts) : (group inner).HasSource writesProducts := by
  intro previous words tail hopens hresolve
  rw [tokens_group, List.cons_append, List.append_assoc] at hresolve
  rcases resolve_eq_cons_of_opensOperand hopens hresolve with
    ⟨word, rest, rfl, hhead, htail⟩ | ⟨sign, n, rest, rfl, hhead, htail⟩
  · obtain rfl := Word.eq_of_token_eq .opening hhead.symm rfl
    obtain ⟨source, rest', rfl, hallowed, rfl, hrest⟩ :=
      h (some .opening) rest _ (by decide) htail.symm
    rw [List.singleton_append] at hrest
    obtain ⟨word, rest, rfl, ⟨hhead, htail⟩ | ⟨-, hhead, -⟩⟩ :=
      resolve_eq_cons_of_not_opensOperand (opensOperand_lastToken _) hrest.symm
    · obtain rfl := Word.eq_of_token_eq .closing hhead.symm rfl
      exact ⟨Phrase.group source, rest, by simp, hallowed, rfl, htail⟩
    · exact absurd hhead (by decide)
  · cases hhead

/-- Where a product was inserted the join may be left out. -/
theorem join_allowed_of_gap {left : Phrase SignedNumeral (Option Operator) .expression}
    {right : Phrase SignedNumeral (Option Operator) .operand} {word : Word} {words rest : List Word}
    (hwords : word :: words = right.words ++ rest)
    (hfirst : word.token = right.meaning.firstToken)
    (hgap : gap writesProducts (some left.meaning.lastToken) (some word.token) =
      [.ofOperator .product]) :
    writesProducts = true ∧ (left.endsInGroup = true ∨ right.endsInGroup = true) ∧
      right.startsSigned = false := by
  obtain hnone | ⟨-, last, first, hlast, hnext, hwrites, hmultiplies⟩ :=
    gap_cases writesProducts (some left.meaning.lastToken) (some word.token)
  · rw [hgap] at hnone
    cases hnone
  · rw [hfirst] at hnext
    obtain rfl := Option.some.inj hlast
    obtain rfl := Option.some.inj hnext
    refine ⟨hwrites, (multiplies_lastToken left right).1 hmultiplies, ?_⟩
    by_contra hsigned
    obtain ⟨op, hop⟩ := head?_words_of_startsSigned (by simpa using hsigned) rest
    rw [← hwords] at hop
    obtain rfl : word = .operator op := Option.some.inj hop
    rw [Word.token, gap_ofOperator] at hgap
    cases hgap

theorem HasSource.join {left : Phrase Binary64 Operator .expression} {op : Operator}
    {right : Phrase Binary64 Operator .operand} (hleft : left.HasSource writesProducts)
    (hright : right.HasSource writesProducts) : (join left op right).HasSource writesProducts := by
  intro previous words tail hopens hresolve
  rw [tokens_join, List.append_assoc, List.cons_append] at hresolve
  obtain ⟨left', words', rfl, hallowed, rfl, hjoin⟩ := hleft previous words _ hopens hresolve
  obtain ⟨word, rest, rfl, ⟨hhead, htail⟩ | ⟨hgap, hhead, hfirst, htail⟩⟩ :=
    resolve_eq_cons_of_not_opensOperand (opensOperand_lastToken _) hjoin.symm
  · -- The operator is a word.
    obtain rfl := Word.eq_of_token_eq (.operator op) hhead.symm rfl
    obtain ⟨right', rest', rfl, hallowed', rfl, hrest⟩ :=
      hright (some (.ofOperator op)) rest tail (by cases op <;> decide) htail.symm
    exact ⟨Phrase.join left' (some op) right', rest', by simp,
      ⟨hallowed, hallowed', fun h => by cases h⟩, rfl, hrest⟩
  · -- The operator was inserted.
    have hop : (Word.operator op).token = (Word.operator .product).token := hhead
    obtain rfl := Word.operator.inj (Word.eq_of_token_eq (.operator .product) hop rfl)
    obtain ⟨right', rest', hwords, hallowed', rfl, hrest⟩ :=
      hright (some (.ofOperator .product)) (word :: rest) tail (by decide) htail.symm
    rw [head?_tokens] at hfirst
    have hhow := join_allowed_of_gap hwords (Option.some.inj hfirst).symm hgap
    exact ⟨Phrase.join left' none right', rest', by rw [hwords]; simp,
      ⟨hallowed, hallowed', fun _ => hhow⟩, rfl, hrest⟩

end Source

theorem exists_words_of_resolve (writesProducts : Bool) {part : Part}
    (phrase : Phrase Binary64 Operator part) : phrase.HasSource writesProducts := by
  induction phrase with
  | leaf value => exact hasSource_leaf value
  | group inner ih => exact ih.group
  | single operand ih =>
      intro previous words tail hopens hresolve
      obtain ⟨source, rest, hwords, hallowed, hmeaning, htail⟩ :=
        ih previous words tail hopens hresolve
      exact ⟨single source, rest, hwords, hallowed, congrArg single hmeaning, htail⟩
  | join left op right ihleft ihright => exact ihleft.join ihright

/-! ## Reading -/

theorem isProper_token (word : Word) : IsProper word.token := by
  cases word with
  | numeral n => exact Or.inl rfl
  | operator op => exact Or.inr (Or.inl (by cases op <;> decide))
  | opening => exact Or.inr (Or.inr (by decide))
  | closing => exact Or.inr (Or.inr (by decide))

theorem isProper_foldSigns {previous : Option Token} {tokens : List Token}
    (h : ∀ token ∈ tokens, IsProper token) :
    ∀ token ∈ foldSigns previous tokens, IsProper token := by
  fun_induction foldSigns previous tokens with
  | case1 => exact h
  | case2 previous text value rest hsign ih =>
      simp only [List.forall_mem_cons] at h ⊢
      exact ⟨Or.inl rfl, ih h.2.2⟩
  | case3 previous text value rest hsign ih =>
      rw [List.forall_mem_cons] at h ⊢
      exact ⟨h.1, ih h.2⟩
  | case4 previous token rest _ ih =>
      rw [List.forall_mem_cons] at h ⊢
      exact ⟨h.1, ih h.2⟩

theorem isProper_writeProducts {writesProducts : Bool} {tokens : List Token}
    (h : ∀ token ∈ tokens, IsProper token) :
    ∀ token ∈ writeProducts writesProducts tokens, IsProper token := by
  have hproduct : IsProper (.ofOperator .product) := isProper_token (.operator .product)
  induction tokens with
  | nil => cases writesProducts <;> exact h
  | cons token tokens ih =>
      rw [List.forall_mem_cons] at h
      rw [writeProducts_cons, List.forall_mem_cons, List.forall_mem_append]
      refine ⟨h.1, ?_, ih h.2⟩
      rcases gap_cases writesProducts (some token) tokens.head? with hgap | ⟨hgap, -⟩
      · simp [hgap]
      · simpa [hgap] using hproduct

theorem read_eq_ok {writesProducts : Bool} {text : List Char} {tokens : List Token} :
    Token.read writesProducts text = .ok tokens ↔
      ∃ unsigned, cut 0 text = .ok unsigned ∧ resolve writesProducts none unsigned = tokens ∧
        Sentence.check tokens = .ok () := by
  rw [Token.read]
  cases hcut : cut 0 text with
  | error fault => simp [bind, Except.bind]
  | ok unsigned =>
      show (Sentence.check (resolve writesProducts none unsigned) >>= fun _ =>
        .ok (resolve writesProducts none unsigned)) = .ok tokens ↔ _
      cases hcheck : Sentence.check (resolve writesProducts none unsigned) with
      | error fault =>
          simp only [bind, Except.bind, reduceCtorEq, Except.ok.injEq, exists_eq_left', false_iff]
          rintro ⟨rfl, hok⟩
          rw [hcheck] at hok
          cases hok
      | ok =>
          simp only [bind, Except.bind, Except.ok.injEq, exists_eq_left']
          constructor
          · rintro rfl
            exact ⟨rfl, hcheck⟩
          · exact fun h => h.1

/-- What a text is read as are the tokens of an allowed expression that is spelled by it. -/
theorem exists_expression_of_read {writesProducts : Bool} {text : List Char} {tokens : List Token}
    (h : Token.read writesProducts text = .ok tokens) :
    ∃ expression : Phrase SignedNumeral (Option Operator) .expression,
      expression.IsAllowed writesProducts ∧ Spells expression.words text ∧
        expression.meaning.tokens = tokens := by
  obtain ⟨unsigned, hcut, hresolve, hcheck⟩ := read_eq_ok.1 h
  obtain ⟨words, hspells, rfl⟩ := exists_words_of_cut hcut
  have hproper : ∀ token ∈ tokens, IsProper token := by
    rw [← hresolve]
    refine isProper_writeProducts (isProper_foldSigns ?_)
    intro token htoken
    obtain ⟨word, -, rfl⟩ := List.mem_map.1 htoken
    exact isProper_token word
  obtain ⟨phrase, rfl⟩ := (check_eq_ok_iff hproper).1 hcheck
  rw [← List.append_nil phrase.tokens] at hresolve
  obtain ⟨source, rest, rfl, hallowed, rfl, hrest⟩ :=
    exists_words_of_resolve writesProducts phrase none words [] rfl hresolve
  cases rest with
  | nil => exact ⟨source, hallowed, by simpa using hspells, rfl⟩
  | cons word rest =>
      rw [List.map_cons, resolve_cons (Or.inl (opensOperand_lastToken _))] at hrest
      simp at hrest

/-- An allowed expression is read as its tokens, however it is spelled. -/
theorem read_of_spells {writesProducts : Bool} {text : List Char}
    {expression : Phrase SignedNumeral (Option Operator) .expression}
    (hallowed : expression.IsAllowed writesProducts) (hspells : Spells expression.words text) :
    Token.read writesProducts text = .ok expression.meaning.tokens := by
  have hcut := cut_of_spells hspells (isChain_words hallowed) 0
  have hresolve := resolve_words hallowed none [] fun _ => rfl
  rw [List.append_nil, resolve_nil, List.append_nil] at hresolve
  exact read_eq_ok.2 ⟨_, hcut, hresolve, expression.meaning.check_tokens⟩

/-- A text is read exactly if it spells an allowed expression, and it is read as the tokens of that
expression: every numeral with its sign as one number, brackets and operators in order, and a
product for every join that is left out. -/
theorem read_eq_ok_iff (writesProducts : Bool) (text : List Char) (tokens : List Token) :
    Token.read writesProducts text = .ok tokens ↔
      ∃ expression : Phrase SignedNumeral (Option Operator) .expression,
        expression.IsAllowed writesProducts ∧ Spells expression.words text ∧
          expression.meaning.tokens = tokens := by
  constructor
  · exact exists_expression_of_read
  · rintro ⟨expression, hallowed, hspells, rfl⟩
    exact read_of_spells hallowed hspells

end Phrase

end Reckoner
