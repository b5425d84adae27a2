import AnnotationScan.Proofs.Operators

/-!
# Layers of the expression grammar

The productions of the expressions in tokens of which no operator expression is made.
-/

namespace AnnotationScan.Grammar

open Peg

/-- From `start` on nothing but an operator expression can begin at any token. -/
structure Bare (source : Source TokenKind) (start : Nat) : Prop where
  marked : source.Marked
  isWord : ∀ i, (source.lexeme i).kind = .identifier → (source.lexeme i).isWord = true
  absent : ∀ i, start ≤ i → (source.lexeme i).kind ∉ TokenKind.foreign

namespace Bare

variable {source : Source TokenKind} {trace m : Bool} {start i j : Nat}

theorem isWord_eq_false (h : Bare source start) (hkind : (source.lexeme i).kind ≠ .identifier) :
    (source.lexeme i).isWord = false :=
  Bool.eq_false_iff.2 fun hword => hkind (h.marked.word i hword)

theorem ne (h : Bare source start) (hi : start ≤ i) {kind : TokenKind}
    (hkind : kind ∈ TokenKind.foreign) : (source.lexeme i).kind ≠ kind :=
  fun heq => h.absent i hi (heq ▸ hkind)

theorem le_next (hi : start ≤ i) (hlast : i ≤ source.last) : start ≤ source.next i :=
  Nat.le_trans hi (source.le_next hlast)

/-! ## What does not begin at any token -/

theorem refuses_label (h : Bare source start) (hi : start ≤ i) (hlast : i ≤ source.last) :
    Refuses source (definitions trace) label m i := by
  rw [label, refuses_pair, refuses_word, or_iff_not_imp_left]
  intro hword
  rw [Bool.not_eq_false] at hword
  have hat := h.ne (le_next hi hlast) (show .atSign ∈ TokenKind.foreign by decide)
  exact ⟨_, matches_word.2 ⟨hword, rfl⟩, refuses_token.2 hat⟩

theorem refuses_annotatedLambda (h : Bare source start) (hi : start ≤ i) (hlast : i ≤ source.last) :
    Refuses source (definitions trace) (annotatedLambda trace) m i := by
  have huse : Refuses source (definitions trace) Nonterminal.annotationUse.rule m i :=
    refuses_annotationUse (h.ne hi (by decide))
  have hlabel : Matches source (definitions trace) (.optional label) m i i :=
    matches_optional.2 (.inr ⟨h.refuses_label hi hlast, rfl⟩)
  have hlambda : Refuses source (definitions trace) (lambdaLiteral trace) m i :=
    refuses_lambdaLiteral (h.ne hi (by decide))
  exact refuses_andThen.2 (.inr ⟨i, huse.matches_many,
    refuses_andThen.2 (.inr ⟨i, hlabel, refuses_seq hlambda⟩)⟩)

/-- In front of a reference to a function a type is tried, but no reference follows it. -/
theorem refuses_callableReference (h : Bare source start) (hi : start ≤ i)
    (hlast : i ≤ source.last) :
    Refuses source (definitions trace) (callableReference trace) m i := by
  have hnests : Nests true [] (.optional (receiverType trace)) [] := .optional .receiverType
  have hfatal : (Rule.optional (receiverType trace)).has Rule.isFatal = false := by
    cases trace <;> decide
  have hdecided : (∃ k, Matches source (definitions trace) (.optional (receiverType trace)) m i k) ∨
      Refuses source (definitions trace) (.optional (receiverType trace)) m i :=
    matches_or_refuses h.marked hnests.refersTo hfatal hlast
  rcases hdecided with ⟨k, hk⟩ | hnone
  · have hcolons := h.ne (Nat.le_trans hi (hk.bounds hlast).1)
      (show .colonColon ∈ TokenKind.foreign by decide)
    exact refuses_named.2
      (refuses_andThen.2 (.inr ⟨k, hk, refuses_seq (refuses_token.2 hcolons)⟩))
  · exact absurd hnone not_refuses_optional

/-! ## Suffixes -/

theorem matches_callSuffix (h : Bare source start) (hi : start ≤ i) (hlast : i ≤ source.last)
    (hargs : Matches source (definitions trace) (valueArguments trace) m i j) :
    Matches source (definitions trace) (callSuffix trace) m i j := by
  have htypes : Matches source (definitions trace) (.optional (typeArguments trace)) m i i :=
    matches_optional.2 (.inr ⟨refuses_typeArguments (h.ne hi (by decide)), rfl⟩)
  have hbounds := hargs.bounds hlast
  have hlambda : Refuses source (definitions trace) (annotatedLambda trace) m j :=
    h.refuses_annotatedLambda (Nat.le_trans hi hbounds.1) hbounds.2
  refine matches_named.2 (matches_pair.2 ⟨i, htypes, matches_orElse.2 (.inr ⟨?_, hargs⟩)⟩)
  exact refuses_pair.2 (.inr ⟨j, matches_optional.2 (.inl hargs), hlambda⟩)

theorem refuses_callSuffix (h : Bare source start) (hi : start ≤ i) (hlast : i ≤ source.last)
    (hkind : (source.lexeme i).kind ≠ .leftParen) :
    Refuses source (definitions trace) (callSuffix trace) m i := by
  have htypes : Matches source (definitions trace) (.optional (typeArguments trace)) m i i :=
    matches_optional.2 (.inr ⟨refuses_typeArguments (h.ne hi (by decide)), rfl⟩)
  have hargs : Refuses source (definitions trace) (valueArguments trace) m i :=
    refuses_valueArguments hkind
  have hlambda : Refuses source (definitions trace) (annotatedLambda trace) m i :=
    h.refuses_annotatedLambda hi hlast
  refine refuses_named.2 (refuses_pair.2 (.inr ⟨i, htypes, refuses_orElse.2 ⟨?_, hargs⟩⟩))
  exact refuses_pair.2 (.inr ⟨i, matches_optional.2 (.inr ⟨hargs, rfl⟩), hlambda⟩)

theorem matches_onSameLine_false {part : TokenRule} :
    Matches source (definitions trace) (onSameLine part) false i j ↔
      Matches source (definitions trace) part false i j := by
  simp [matches_onSameLine]

theorem refuses_onSameLine_false {part : TokenRule} :
    Refuses source (definitions trace) (onSameLine part) false i ↔
      Refuses source (definitions trace) part false i := by
  simp [refuses_onSameLine]

theorem refuses_suffix (h : Bare source start) (hi : start ≤ i) (hlast : i ≤ source.last)
    (hkind : (source.lexeme i).kind ∉ TokenKind.continuing 0) :
    Refuses source (definitions trace) (postfixUnarySuffix trace) false i := by
  simp only [TokenKind.continuing, List.mem_cons, List.not_mem_nil, or_false, not_or] at hkind
  obtain ⟨hbang, hparen, hbracket, hdot, hsafe⟩ := hkind
  have hincrement := h.ne hi (show .increment ∈ TokenKind.foreign by decide)
  have hdecrement := h.ne hi (show .decrement ∈ TokenKind.foreign by decide)
  have hcolons := h.ne hi (show .colonColon ∈ TokenKind.foreign by decide)
  refine refuses_choice.2 ?_
  simp only [List.forall_mem_cons, refuses_onSameLine_false, refuses_tokenAmong]
  refine ⟨by simp [*], refuses_typeArguments (h.ne hi (by decide)),
    h.refuses_callSuffix hi hlast hparen, refuses_wrapped hbracket, ?_, by simp⟩
  exact refuses_named.2 (refuses_seq (refuses_tokenAmong.2 (by simp [*])))

theorem matches_asserted (hkind : (source.lexeme i).kind = .bangBang) :
    Matches source (definitions trace) (postfixUnarySuffix trace) false i (source.next i) := by
  refine matches_orElse.2 (.inl (matches_onSameLine_false.2 (matches_tokenAmong.2 ⟨?_, rfl⟩)))
  simp [hkind]

theorem matches_call (h : Bare source start) (hi : start ≤ i) (hlast : i ≤ source.last)
    (hargs : Matches source (definitions trace) (valueArguments trace) false i j) :
    Matches source (definitions trace) (postfixUnarySuffix trace) false i j := by
  have hparen := (matches_wrapped.1 (matches_named.1 hargs)).1
  have hsigns : Refuses source (definitions trace)
      (onSameLine (tokenAmong [.increment, .decrement, .bangBang])) false i := by
    rw [refuses_onSameLine_false, refuses_tokenAmong, hparen]
    decide
  refine matches_orElse.2 (.inr ⟨hsigns, matches_orElse.2 (.inr
    ⟨refuses_typeArguments (h.ne hi (by decide)), matches_orElse.2 (.inl ?_)⟩)⟩)
  exact matches_onSameLine_false.2 (h.matches_callSuffix hi hlast hargs)

theorem matches_index (h : Bare source start) (hi : start ≤ i) (hlast : i ≤ source.last)
    (hindex : Matches source (definitions trace) indexingSuffix false i j) :
    Matches source (definitions trace) (postfixUnarySuffix trace) false i j := by
  have hbracket := (matches_wrapped.1 hindex).1
  have hsigns : Refuses source (definitions trace)
      (onSameLine (tokenAmong [.increment, .decrement, .bangBang])) false i := by
    rw [refuses_onSameLine_false, refuses_tokenAmong, hbracket]
    decide
  have hcall : Refuses source (definitions trace) (onSameLine (callSuffix trace)) false i :=
    refuses_onSameLine_false.2 (h.refuses_callSuffix hi hlast (by rw [hbracket]; decide))
  exact matches_orElse.2 (.inr ⟨hsigns, matches_orElse.2 (.inr
    ⟨refuses_typeArguments (h.ne hi (by decide)), matches_orElse.2 (.inr
      ⟨hcall, matches_orElse.2 (.inl (matches_onSameLine_false.2 hindex))⟩)⟩)⟩)

theorem matches_member (h : Bare source start) (hi : start ≤ i) (hlast : i ≤ source.last)
    (hkind : (source.lexeme i).kind ∈ [TokenKind.dot, .safeDot])
    (hname : (source.lexeme (source.next i)).kind = .identifier) :
    Matches source (definitions trace) (postfixUnarySuffix trace) false i
      (source.next (source.next i)) := by
  have hother : ∀ kind ∉ [TokenKind.dot, .safeDot], (source.lexeme i).kind ≠ kind :=
    fun kind hnot heq => hnot (heq ▸ hkind)
  have hsigns : Refuses source (definitions trace)
      (onSameLine (tokenAmong [.increment, .decrement, .bangBang])) false i := by
    rw [refuses_onSameLine_false, refuses_tokenAmong]
    exact (by decide : ∀ kind ∈ [TokenKind.dot, .safeDot],
      kind ∉ [TokenKind.increment, .decrement, .bangBang]) _ hkind
  have hcall : Refuses source (definitions trace) (onSameLine (callSuffix trace)) false i :=
    refuses_onSameLine_false.2 (h.refuses_callSuffix hi hlast (hother _ (by decide)))
  have hindex : Refuses source (definitions trace) (onSameLine indexingSuffix) false i :=
    refuses_onSameLine_false.2 (refuses_wrapped (hother _ (by decide)))
  have haccess : Matches source (definitions trace) (tokenAmong [.dot, .safeDot, .colonColon])
      false i (source.next i) :=
    matches_tokenAmong.2 ⟨List.mem_append_left [TokenKind.colonColon] hkind, rfl⟩
  have hword : Matches source (definitions trace) .word false (source.next i)
      (source.next (source.next i)) := matches_word.2 ⟨h.isWord _ hname, rfl⟩
  refine matches_orElse.2 (.inr ⟨hsigns, matches_orElse.2 (.inr
    ⟨refuses_typeArguments (h.ne hi (by decide)), matches_orElse.2 (.inr
      ⟨hcall, matches_orElse.2 (.inr ⟨hindex, ?_⟩)⟩)⟩)⟩)
  exact matches_named.2 (matches_pair.2 ⟨_, haccess, matches_orElse.2 (.inl hword)⟩)

/-! ## Operands -/

theorem matches_operand (h : Bare source start) (hi : start ≤ i) (hlast : i ≤ source.last)
    (hkind : (source.lexeme i).kind ∈ TokenKind.operands) :
    Matches source (definitions trace) Nonterminal.primaryExpression.rule m i
      (source.next i) := by
  have hother : ∀ kind ∉ TokenKind.operands, (source.lexeme i).kind ≠ kind :=
    fun kind hnot heq => hnot (heq ▸ hkind)
  have hparen : Refuses source (definitions trace) parenthesizedExpression m i :=
    refuses_wrapped (hother _ (by decide))
  have hreference : Refuses source (definitions trace) (callableReference trace) m i :=
    h.refuses_callableReference hi hlast
  have hlambda : Refuses source (definitions trace) (lambdaLiteral trace) m i :=
    refuses_lambdaLiteral (h.ne hi (by decide))
  have hcollection : Refuses source (definitions trace) (collectionLiteral trace) m i :=
    refuses_named.2 (refuses_wrapped (hother _ (by decide)))
  have hat := h.ne (le_next hi hlast) (show .atSign ∈ TokenKind.foreign by decide)
  have hlabel : Refuses source (definitions trace) (Rule.seq [.token .atSign, .word]) m
      (source.next i) := refuses_seq (refuses_token.2 hat)
  have hword := h.isWord i
  have hnoWord := h.isWord_eq_false (i := i)
  rw [matches_nonterminal]
  refine matches_named.2 ?_
  simp only [Rule.choice, matches_orElse, hparen, hreference, hlambda, hcollection, refuses_omitted,
    refuses_orElse, matches_word, refuses_word, literalConstant, stringConstant, thisExpression,
    matches_pair, matches_tokenAmong, refuses_tokenAmong, matches_token, matches_optional]
  simp only [TokenKind.operands, List.mem_cons, List.not_mem_nil, or_false] at hkind
  generalize (source.lexeme i).kind = kind at hkind hword hnoWord
  rcases hkind with rfl | rfl | rfl | rfl | rfl | rfl | rfl | rfl | rfl | rfl
  all_goals simp_all

theorem matches_parenthesized
    (hparens : Matches source (definitions trace) parenthesizedExpression m i j) :
    Matches source (definitions trace) Nonterminal.primaryExpression.rule m i j :=
  matches_nonterminal.2 (matches_named.2 (matches_orElse.2 (.inl hparens)))

theorem matches_collection (h : Bare source start) (hi : start ≤ i) (hlast : i ≤ source.last)
    (hcollection : Matches source (definitions trace) (collectionLiteral trace) m i j) :
    Matches source (definitions trace) Nonterminal.primaryExpression.rule m i j := by
  have hbracket := (matches_wrapped.1 (matches_named.1 hcollection)).1
  have hparen : Refuses source (definitions trace) parenthesizedExpression m i :=
    refuses_wrapped (by rw [hbracket]; decide)
  have hreference : Refuses source (definitions trace) (callableReference trace) m i :=
    h.refuses_callableReference hi hlast
  have hlambda : Refuses source (definitions trace) (lambdaLiteral trace) m i :=
    refuses_lambdaLiteral (h.ne hi (by decide))
  have hword := h.isWord_eq_false (i := i) (by rw [hbracket]; decide)
  refine matches_nonterminal.2 (matches_named.2 ?_)
  simp [Rule.choice, matches_orElse, hparen, hreference, hlambda, hcollection, refuses_omitted,
    refuses_orElse, refuses_word, hword, literalConstant, stringConstant, refuses_tokenAmong,
    hbracket]

end Bare

/-! ## Layers -/

def layer (trace : Bool) : (looseness : Nat) → TokenRule
  | 0 => postfixUnaryExpression trace
  | 1 => prefixUnaryExpression trace
  | 2 => multiplicativeExpression trace
  | 3 => additiveExpression trace
  | 4 => rangeExpression trace
  | 5 => infixFunctionCall trace
  | 6 => elvisExpression trace
  | 7 => infixOperation trace
  | 8 => comparison trace
  | 9 => equality trace
  | 10 => conjunction trace
  | _ => expressionBody trace

def layerOperand (trace : Bool) : (row : Nat) → TokenRule
  | 0 => asExpression trace
  | 6 => genericCallLikeComparison trace
  | n => layer trace (n + 1)

def layerOperator : (row : Nat) → TokenRule
  | 0 => onSameLine (tokenAmong [.star, .slash, .percent])
  | 1 => onSameLine (tokenAmong [.plus, .minus])
  | 2 => onSameLine (tokenAmong [.range, .rangeUntil])
  | 3 => onSameLine .word
  | 4 => .token .elvis
  | 5 => onSameLine (tokenAmong [.inKeyword, .notIn])
  | 6 => onSameLine (tokenAmong [.less, .greater, .lessOrEqual, .greaterOrEqual])
  | 7 => onSameLine (tokenAmong [.notEqual, .notIdentical, .equal, .identical])
  | 8 => .token .conjunction
  | _ => .token .disjunction

/-- An operator of a row with what follows it; the row of `in` has types as well. -/
def layerStep (trace : Bool) : (row : Nat) → TokenRule
  | 5 => Rule.choice [Rule.seq [layerOperator 5, layerOperand trace 5],
      Rule.seq [onSameLine (tokenAmong [.isKeyword, .notIs]), Nonterminal.type.rule]]
  | n => Rule.seq [layerOperator n, layerOperand trace n]

namespace Bare

variable {source : Source TokenKind} {trace m : Bool} {start i j n : Nat}

theorem matches_layer (hn : n < 10) :
    Matches source (definitions trace) (layer trace (n + 2)) m i j ↔
      ∃ k, Matches source (definitions trace) (layerOperand trace n) m i k ∧
        Matches source (definitions trace) (.many (layerStep trace n)) m k j := by
  have hpair : ∀ rule, rule = Rule.seq [layerOperand trace n, .many (layerStep trace n)] →
      (Matches source (definitions trace) rule m i j ↔ _) := fun rule hrule =>
    hrule ▸ matches_pair
  match n, hn with
  | 9, _ => exact matches_named.trans (hpair _ rfl)
  | 0, _ | 1, _ | 2, _ | 3, _ | 4, _ | 5, _ | 6, _ | 7, _ | 8, _ => exact hpair _ rfl

theorem matches_operator (h : Bare source start) {operators : List TokenKind}
    (hrow : TokenKind.binaryOperators[n]? = some operators)
    (hkind : (source.lexeme i).kind ∈ operators) :
    Matches source (definitions trace) (layerOperator n) false i (source.next i) := by
  match n, hrow with
  | 0, rfl | 1, rfl | 2, rfl | 5, rfl | 7, rfl =>
      exact matches_onSameLine_false.2 (matches_tokenAmong.2 ⟨hkind, rfl⟩)
  | 6, rfl =>
      have hmem : (source.lexeme i).kind ∈ [TokenKind.less, .greater, .lessOrEqual, .greaterOrEqual] :=
        List.mem_append_right [TokenKind.less, .greater] hkind
      exact matches_onSameLine_false.2 (matches_tokenAmong.2 ⟨hmem, rfl⟩)
  | 3, rfl =>
      exact matches_onSameLine_false.2 (matches_word.2 ⟨h.isWord i (List.mem_singleton.1 hkind), rfl⟩)
  | 4, rfl | 8, rfl | 9, rfl => exact matches_token.2 ⟨List.mem_singleton.1 hkind, rfl⟩

theorem refuses_operator (h : Bare source start) (hi : start ≤ i) {operators : List TokenKind}
    (hrow : TokenKind.binaryOperators[n]? = some operators)
    (hkind : (source.lexeme i).kind ∉ operators) :
    Refuses source (definitions trace) (layerOperator n) false i := by
  match n, hrow with
  | 0, rfl | 1, rfl | 2, rfl | 5, rfl | 7, rfl =>
      exact refuses_onSameLine_false.2 (refuses_tokenAmong.2 hkind)
  | 6, rfl =>
      have hless := h.ne hi (show .less ∈ TokenKind.foreign by decide)
      have hgreater := h.ne hi (show .greater ∈ TokenKind.foreign by decide)
      refine refuses_onSameLine_false.2 (refuses_tokenAmong.2 ?_)
      rw [List.mem_cons, List.mem_cons, not_or, not_or]
      exact ⟨hless, hgreater, hkind⟩
  | 3, rfl =>
      have hword := h.isWord_eq_false (List.mem_singleton.not.1 hkind)
      exact refuses_onSameLine_false.2 (refuses_word.2 hword)
  | 4, rfl | 8, rfl | 9, rfl => exact refuses_token.2 (List.mem_singleton.not.1 hkind)

theorem matches_step (h : Bare source start) {operators : List TokenKind}
    (hrow : TokenKind.binaryOperators[n]? = some operators)
    (hkind : (source.lexeme i).kind ∈ operators)
    (hoperand : Matches source (definitions trace) (layerOperand trace n) false (source.next i) j) :
    Matches source (definitions trace) (layerStep trace n) false i j := by
  have hpair := matches_pair.2 ⟨_, h.matches_operator hrow hkind, hoperand⟩
  unfold layerStep
  split
  · exact matches_orElse.2 (.inl hpair)
  · exact hpair

theorem refuses_step (h : Bare source start) (hi : start ≤ i) {operators : List TokenKind}
    (hrow : TokenKind.binaryOperators[n]? = some operators)
    (hkind : (source.lexeme i).kind ∉ operators) :
    Refuses source (definitions trace) (layerStep trace n) false i := by
  have hpair : Refuses source (definitions trace)
      (Rule.seq [layerOperator n, layerOperand trace n]) false i :=
    refuses_seq (h.refuses_operator hi hrow hkind)
  unfold layerStep
  split
  · have his := h.ne hi (show .isKeyword ∈ TokenKind.foreign by decide)
    have hnotIs := h.ne hi (show .notIs ∈ TokenKind.foreign by decide)
    refine refuses_orElse.2 ⟨hpair, refuses_seq (refuses_onSameLine_false.2 ?_)⟩
    exact refuses_tokenAmong.2 (by simp [his, hnotIs])
  · exact hpair

theorem continuing_zero_subset : ∀ looseness, TokenKind.continuing 0 ⊆ TokenKind.continuing looseness
  | 0 | 1 => fun _ hkind => hkind
  | n + 2 => fun _ hkind => List.mem_append_left _ (continuing_zero_subset (n + 1) hkind)

theorem matches_layerOperand (h : Bare source start) (hi : start ≤ i) (hlast : i ≤ source.last)
    (hlayer : Matches source (definitions trace) (layer trace (n + 1)) false i j)
    (hkind : (source.lexeme j).kind ∉ TokenKind.continuing (n + 1)) :
    Matches source (definitions trace) (layerOperand trace n) false i j := by
  obtain ⟨hij, hj⟩ := hlayer.bounds hlast
  have hstart := Nat.le_trans hi hij
  unfold layerOperand
  split
  · have hcast : Refuses source (definitions trace) (Rule.seq
        [onSameLine (tokenAmong [.asKeyword, .safeCast]), Nonterminal.type.rule]) false j := by
      have has := h.ne hstart (show .asKeyword ∈ TokenKind.foreign by decide)
      have hsafe := h.ne hstart (show .safeCast ∈ TokenKind.foreign by decide)
      refine refuses_seq (refuses_onSameLine_false.2 (refuses_tokenAmong.2 ?_))
      simp [has, hsafe]
    exact matches_pair.2 ⟨j, hlayer, hcast.matches_many⟩
  · have hparen : (source.lexeme j).kind ≠ .leftParen := by
      rintro heq
      exact hkind (continuing_zero_subset _ (by simp [heq, TokenKind.continuing]))
    have hcall : Refuses source (definitions trace) (onSameLine (callSuffix trace)) false j :=
      refuses_onSameLine_false.2 (h.refuses_callSuffix hstart hj hparen)
    exact matches_pair.2 ⟨j, hlayer, hcall.matches_many⟩
  · exact hlayer

end Bare
end AnnotationScan.Grammar
