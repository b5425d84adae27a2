import AnnotationScan.Proofs.Grammar.Brackets

/-!
# The shape of the productions

`Nests types before rule after`: if the rule is applied where the brackets `before` are open, the
brackets `after` are open behind its match.  A type and whatever it is made of may stand anywhere,
an expression only where angle brackets do not count.
-/

namespace AnnotationScan.Grammar

open Peg

def Nonterminal.isType : Nonterminal → Bool
  | .type | .annotationUse | .parenthesizedUserType => true
  | _ => false

/-- The brackets that are open in front of a match of a rule, and those behind it. -/
inductive Nests (types : Bool) : List Bracket → TokenRule → List Bracket → Prop
  | token {before after : List Bracket} {kind : TokenKind}
      (h : Bracket.read types before kind = some after) :
      Nests types before (.token kind) after
  | word {before : List Bracket} : Nests types before .word before
  | keyword {before : List Bracket} {text : String} : Nests types before (.keyword text) before
  | nothing {before : List Bracket} : Nests types before .nothing before
  | lineBreak {before : List Bracket} : Nests types before .lineBreak before
  | fail {before after : List Bracket} {reason : Reason} :
      Nests types before (.fail reason) after
  | andThen {before between after : List Bracket} {first second : TokenRule}
      (hfirst : Nests types before first between) (hsecond : Nests types between second after) :
      Nests types before (.andThen first second) after
  | orElse {before after : List Bracket} {first second : TokenRule}
      (hfirst : Nests types before first after) (hsecond : Nests types before second after) :
      Nests types before (.orElse first second) after
  | optional {before : List Bracket} {part : TokenRule} (h : Nests types before part before) :
      Nests types before (.optional part) before
  | many {before : List Bracket} {part : TokenRule} (h : Nests types before part before) :
      Nests types before (.many part) before
  | ahead {before after : List Bracket} {part : TokenRule} (h : Nests types before part after) :
      Nests types before (.ahead part) before
  | notAhead {before after : List Bracket} {part : TokenRule} (h : Nests types before part after) :
      Nests types before (.notAhead part) before
  | newlines {before after : List Bracket} {count : Bool} {part : TokenRule}
      (h : Nests types before part after) : Nests types before (.newlines count part) after
  | traced {before after : List Bracket} {name : String} {part : TokenRule}
      (h : Nests types before part after) : Nests types before (.traced name part) after
  | ref {before : List Bracket} {nonterminal : Nonterminal} {r : Nat}
      (hr : nonterminal.index = r)
      (h : nonterminal.isType = true ∨ Bracket.countsAngles types before = false) :
      Nests types before (.ref r) before

namespace Nests

variable {types : Bool} {before : List Bracket}

theorem plain {kind : TokenKind} (h : kind.isPlain = true) :
    Nests types before (.token kind) before :=
  .token (Bracket.read_plain h)

theorem less (h : Bracket.countsAngles types before = false) :
    Nests types before (.token .less) before :=
  .token (by simp [Bracket.read, h, TokenKind.opened?, TokenKind.closed?, TokenKind.isUnsupported])

theorem greater (h : Bracket.countsAngles types before = false) :
    Nests types before (.token .greater) before :=
  .token (by simp [Bracket.read, h, TokenKind.opened?, TokenKind.closed?, TokenKind.isUnsupported])

theorem seq {parts : List TokenRule} (h : ∀ part ∈ parts, Nests types before part before) :
    Nests types before (Rule.seq parts) before := by
  induction parts with
  | nil => exact .nothing
  | cons part parts ih =>
      exact .andThen (h part List.mem_cons_self) (ih fun p hp => h p (List.mem_cons_of_mem part hp))

theorem choice {after : List Bracket} {parts : List TokenRule}
    (h : ∀ part ∈ parts, Nests types before part after) :
    Nests types before (Rule.choice parts) after := by
  induction parts with
  | nil => exact .fail
  | cons part parts ih =>
      have hpart := h part List.mem_cons_self
      cases parts with
      | nil => exact hpart
      | cons next parts => exact .orElse hpart (ih fun p hp => h p (List.mem_cons_of_mem part hp))

theorem atLeastOnce {part : TokenRule} (h : Nests types before part before) :
    Nests types before (Rule.atLeastOnce part) before :=
  .andThen h (.andThen (.many h) .nothing)

theorem named {after : List Bracket} {trace : Bool} {name : String} {part : TokenRule}
    (h : Nests types before part after) : Nests types before (named trace name part) after := by
  unfold Grammar.named
  split
  · exact .traced h
  · exact h

theorem omitted {trace : Bool} {name : String} :
    Nests types before (Grammar.omitted trace name) before := named .fail

theorem tokenAmong {kinds : List TokenKind} (h : kinds.all (·.isPlain) = true) :
    Nests types before (Grammar.tokenAmong kinds) before := by
  refine choice fun part hpart => ?_
  obtain ⟨kind, hkind, rfl⟩ := List.mem_map.1 hpart
  exact plain (List.all_eq_true.1 h kind hkind)

theorem keywordAmong {words : List String} :
    Nests types before (Grammar.keywordAmong words) before := by
  refine choice fun part hpart => ?_
  obtain ⟨word, -, rfl⟩ := List.mem_map.1 hpart
  exact .keyword

theorem onSameLine {after : List Bracket} {part : TokenRule} (h : Nests types before part after) :
    Nests types before (Grammar.onSameLine part) after := by
  have hline : Nests types before .lineBreak before := .lineBreak
  exact .andThen (.notAhead hline) (.andThen h .nothing)

theorem commaList {item : TokenRule} (h : Nests types before item before) :
    Nests types before (Grammar.commaList item) before := by
  have hcomma : Nests types before (.token .comma) before := plain rfl
  exact .andThen h (.andThen (.many (.andThen hcomma (.andThen h .nothing)))
    (.andThen (.optional hcomma) .nothing))

theorem operatorChain {operand operator : TokenRule} (hoperand : Nests types before operand before)
    (hoperator : Nests types before operator before) :
    Nests types before (Grammar.operatorChain operand operator) before :=
  .andThen hoperand
    (.andThen (.many (.andThen hoperator (.andThen hoperand .nothing))) .nothing)

theorem inParens {content : TokenRule}
    (h : Nests types (.paren :: before) content (.paren :: before)) :
    Nests types before (Grammar.inParens content) before :=
  .andThen (.token rfl) (.andThen (.newlines h) (.andThen (.token rfl) .nothing))

theorem inBrackets {content : TokenRule}
    (h : Nests types (.bracket :: before) content (.bracket :: before)) :
    Nests types before (Grammar.inBrackets content) before :=
  .andThen (.token rfl) (.andThen (.newlines h) (.andThen (.token rfl) .nothing))

theorem inBraces {content : TokenRule}
    (h : Nests types (.brace :: before) content (.brace :: before)) :
    Nests types before (Grammar.inBraces content) before :=
  .andThen (.token rfl) (.andThen (.newlines h) (.andThen (.token rfl) .nothing))

/-! ## Types -/

theorem type : Nests types before Nonterminal.type.rule before := .ref rfl (.inl rfl)

theorem annotationUse : Nests types before Nonterminal.annotationUse.rule before := .ref rfl (.inl rfl)

theorem typeModifiers : Nests types before Grammar.typeModifiers before := by
  refine atLeastOnce (choice ?_)
  simp [annotationUse, keyword]

theorem typeProjection : Nests types before Grammar.typeProjection before := by
  have hvariance : Nests types before varianceModifier before :=
    .orElse (plain rfl) .keyword
  refine .orElse (.andThen (.optional (atLeastOnce ?_)) (.andThen type .nothing)) (plain rfl)
  exact .orElse hvariance annotationUse

variable {trace : Bool}

theorem typeArguments : Nests types before (Grammar.typeArguments trace) before := by
  apply named
  cases hangles : Bracket.countsAngles types before with
  | false =>
      exact .andThen (less hangles)
        (.andThen (commaList typeProjection) (.andThen (greater hangles) .nothing))
  | true =>
      have hless : Nests types before (.token .less) (.angle :: before) :=
        .token (by simp [Bracket.read, hangles, TokenKind.opened?, TokenKind.isUnsupported])
      have hgreater : Nests types (.angle :: before) (.token .greater) before := .token rfl
      exact .andThen hless (.andThen (commaList typeProjection) (.andThen hgreater .nothing))

theorem simpleUserType : Nests types before (Grammar.simpleUserType trace) before :=
  named (.andThen .word (.andThen (.optional typeArguments) .nothing))

theorem userType : Nests types before (Grammar.userType trace) before := by
  have hdot : Nests types before (.token .dot) before := plain rfl
  exact named (.andThen simpleUserType
    (.andThen (.many (.andThen hdot (.andThen simpleUserType .nothing))) .nothing))

theorem typeReference : Nests types before (Grammar.typeReference trace) before :=
  .orElse userType .keyword

theorem parenthesizedType : Nests types before Grammar.parenthesizedType before := inParens type

theorem nullableType : Nests types before (Grammar.nullableType trace) before :=
  .andThen (.orElse typeReference parenthesizedType)
    (.andThen (atLeastOnce (plain rfl)) .nothing)

theorem receiverType : Nests types before (Grammar.receiverType trace) before :=
  named (.andThen (.optional typeModifiers)
    (.andThen (.orElse nullableType (.orElse parenthesizedType typeReference)) .nothing))

theorem functionTypeParameters :
    Nests types before Grammar.functionTypeParameters before := by
  refine inParens (.optional (commaList (.orElse ?_ type)))
  exact .andThen .word (.andThen (plain rfl) (.andThen type .nothing))

theorem functionType : Nests types before (Grammar.functionType trace) before := by
  have hdot : Nests types before (.token .dot) before := plain rfl
  have harrow : Nests types before (.token .arrow) before := plain rfl
  exact named (.andThen (.optional (.andThen receiverType (.andThen hdot .nothing)))
    (.andThen functionTypeParameters (.andThen harrow (.andThen type .nothing))))

theorem definitelyNonNullableType :
    Nests types before (Grammar.definitelyNonNullableType trace) before := by
  have hampersand : Nests types before (.token .ampersand) before := plain rfl
  have hoperand : Nests types before
      (Rule.choice [Grammar.userType trace, Nonterminal.parenthesizedUserType.rule]) before :=
    .orElse userType (.ref rfl (.inl rfl))
  exact .andThen (.optional typeModifiers) (.andThen hoperand (.andThen hampersand
    (.andThen (.optional typeModifiers) (.andThen hoperand .nothing))))

theorem typeBody : Nests types before (Grammar.typeBody trace) before :=
  named (.andThen (.optional typeModifiers)
    (.andThen (.orElse functionType (.orElse definitelyNonNullableType
      (.orElse nullableType (.orElse parenthesizedType typeReference)))) .nothing))

theorem parenthesizedUserTypeBody :
    Nests types before (Grammar.parenthesizedUserTypeBody trace) before :=
  inParens (.orElse userType (.ref rfl (.inl rfl)))

/-! ## Annotations -/

theorem expression (h : Bracket.countsAngles types before = false) :
    Nests types before Nonterminal.expression.rule before := .ref rfl (.inr h)

theorem targetPrefix : Nests types before Grammar.targetPrefix before := by
  have hcolon : Nests types before (.token .colon) before := plain rfl
  exact .andThen keywordAmong (.andThen hcolon .nothing)

theorem valueArgument (h : Bracket.countsAngles types before = false) :
    Nests types before (Grammar.valueArgument trace) before := by
  have hassign : Nests types before (.token .assign) before := plain rfl
  have hstar : Nests types before (.token .star) before := plain rfl
  exact named (.andThen (.optional annotationUse)
    (.andThen (.optional (.andThen .word (.andThen hassign .nothing)))
      (.andThen (.optional hstar) (.andThen (expression h) .nothing))))

theorem valueArguments : Nests types before (Grammar.valueArguments trace) before :=
  named (inParens (.optional (commaList (valueArgument rfl))))

theorem constructorInvocation :
    Nests types before (Grammar.constructorInvocation trace) before :=
  named (.andThen userType (.andThen (onSameLine valueArguments) .nothing))

theorem annotationUnescaped : Nests types before (Grammar.annotationUnescaped trace) before := by
  have hparen : Nests types before (.token .leftParen) (.paren :: before) := .token rfl
  exact named (.orElse constructorInvocation
    (.andThen userType (.andThen (.notAhead (onSameLine hparen)) .nothing)))

theorem annotationList : Nests types before (Grammar.annotationList trace) before :=
  inBrackets (atLeastOnce annotationUnescaped)

theorem annotationSingle : Nests types before (Grammar.annotationSingle trace) before := by
  have hat : Nests types before (.token .atSign) before := plain rfl
  exact named (.andThen hat (.andThen (.orElse
    (.andThen targetPrefix (.andThen annotationUnescaped .nothing))
    (.andThen (.notAhead targetPrefix) (.andThen annotationUnescaped .nothing))) .nothing))

theorem annotationMulti : Nests types before (Grammar.annotationMulti trace) before := by
  have hat : Nests types before (.token .atSign) before := plain rfl
  exact named (.andThen hat
    (.andThen (.optional targetPrefix) (.andThen annotationList .nothing)))

theorem annotationBody : Nests types before (Grammar.annotationBody trace) before :=
  named (.orElse annotationSingle annotationMulti)

theorem plainEntry : Nests types before (Grammar.plainEntry trace) before :=
  named (.orElse annotationSingle annotationMulti)

theorem fileEntry : Nests types before (Grammar.fileEntry trace) before := by
  have hat : Nests types before (.token .atSign) before := plain rfl
  have hcolon : Nests types before (.token .colon) before := plain rfl
  exact named (.andThen hat (.andThen .keyword (.andThen hcolon
    (.andThen (.orElse annotationUnescaped annotationList) .nothing))))

/-! ## Lambdas -/

theorem label : Nests types before Grammar.label before := by
  have hat : Nests types before (.token .atSign) before := plain rfl
  exact .andThen .word (.andThen hat .nothing)

theorem separator : Nests types before Grammar.separator before :=
  .orElse (atLeastOnce (plain rfl)) .lineBreak

theorem typeAscription : Nests types before Grammar.typeAscription before := by
  have hcolon : Nests types before (.token .colon) before := plain rfl
  exact .optional (.andThen hcolon (.andThen type .nothing))

theorem variableDeclaration : Nests types before Grammar.variableDeclaration before :=
  .andThen (.many annotationUse) (.andThen .word (.andThen typeAscription .nothing))

theorem lambdaParameter : Nests types before Grammar.lambdaParameter before :=
  .orElse variableDeclaration
    (.andThen (inParens (commaList variableDeclaration)) (.andThen typeAscription .nothing))

theorem declaration : Nests types before (Grammar.declaration trace) before := by
  apply choice
  simp [omitted]

theorem assignment (h : Bracket.countsAngles types before = false) :
    Nests types before (Grammar.assignment trace) before := by
  have hassign : Nests types before (.token .assign) before := plain rfl
  have hcompound : Nests types before compoundAssignment before := tokenAmong rfl
  exact named (.andThen (.orElse
    (.andThen (.ref rfl (.inr h)) (.andThen hassign .nothing))
    (.andThen (.ref rfl (.inr h)) (.andThen hcompound .nothing))) (.andThen (expression h) .nothing))

theorem statement (h : Bracket.countsAngles types before = false) :
    Nests types before (Grammar.statement trace) before :=
  named (.andThen (.many (.orElse label annotationUse))
    (.andThen (.orElse declaration (.orElse (assignment h) (.orElse omitted (expression h))))
      .nothing))

theorem statements (h : Bracket.countsAngles types before = false) :
    Nests types before (Grammar.statements trace) before := by
  have hmore : Nests types before (Rule.seq [Grammar.separator, Grammar.statement trace]) before :=
    .andThen separator (.andThen (statement h) .nothing)
  exact .andThen (.optional (.andThen (statement h) (.andThen (.many hmore) .nothing)))
    (.andThen (.optional separator) .nothing)

theorem lambdaLiteral : Nests types before (Grammar.lambdaLiteral trace) before := by
  refine named (inBraces (.andThen (.optional ?_) (.andThen (statements rfl) .nothing)))
  exact .andThen (.optional (commaList lambdaParameter)) (.andThen (plain rfl) .nothing)

theorem annotatedLambda : Nests types before (Grammar.annotatedLambda trace) before :=
  .andThen (.many annotationUse) (.andThen (.optional label) (.andThen lambdaLiteral .nothing))

/-! ## Expressions -/

theorem parenthesizedExpression : Nests types before Grammar.parenthesizedExpression before :=
  inParens (expression rfl)

theorem indexingSuffix : Nests types before Grammar.indexingSuffix before :=
  inBrackets (commaList (expression rfl))

theorem callSuffix : Nests types before (Grammar.callSuffix trace) before :=
  named (.andThen (.optional typeArguments) (.andThen (.orElse
    (.andThen (.optional valueArguments) (.andThen annotatedLambda .nothing)) valueArguments)
    .nothing))

theorem navigationSuffix : Nests types before (Grammar.navigationSuffix trace) before := by
  have hoperator : Nests types before (Grammar.tokenAmong [.dot, .safeDot, .colonColon]) before :=
    tokenAmong rfl
  exact named (.andThen hoperator
    (.andThen (.orElse .word (.orElse parenthesizedExpression (plain rfl))) .nothing))

theorem postfixUnarySuffix : Nests types before (Grammar.postfixUnarySuffix trace) before := by
  have hoperator : Nests types before
      (Grammar.tokenAmong [.increment, .decrement, .bangBang]) before := tokenAmong rfl
  exact .orElse (onSameLine hoperator) (.orElse typeArguments
    (.orElse (onSameLine callSuffix) (.orElse (onSameLine indexingSuffix) navigationSuffix)))

theorem assignableSuffix : Nests types before (Grammar.assignableSuffix trace) before :=
  .orElse typeArguments (.orElse indexingSuffix navigationSuffix)

section

variable (h : Bracket.countsAngles types before = false)

include h

theorem postfixUnaryExpression :
    Nests types before (Grammar.postfixUnaryExpression trace) before :=
  named (.andThen (.ref rfl (.inr h)) (.andThen (.many postfixUnarySuffix) .nothing))

theorem prefixUnaryExpression :
    Nests types before (Grammar.prefixUnaryExpression trace) before := by
  have hsign : Nests types before
      (Grammar.tokenAmong [.increment, .decrement, .minus, .plus, .bang]) before := tokenAmong rfl
  exact named (.andThen (.many (.orElse annotationUse (.orElse label hsign)))
    (.andThen (postfixUnaryExpression h) .nothing))

theorem asExpression : Nests types before (Grammar.asExpression trace) before := by
  have hcast : Nests types before (Grammar.tokenAmong [.asKeyword, .safeCast]) before :=
    tokenAmong rfl
  exact .andThen (prefixUnaryExpression h)
    (.andThen (.many (.andThen (onSameLine hcast) (.andThen type .nothing))) .nothing)

theorem multiplicativeExpression :
    Nests types before (Grammar.multiplicativeExpression trace) before :=
  operatorChain (asExpression h) (onSameLine (tokenAmong rfl))

theorem additiveExpression : Nests types before (Grammar.additiveExpression trace) before :=
  operatorChain (multiplicativeExpression h) (onSameLine (tokenAmong rfl))

theorem rangeExpression : Nests types before (Grammar.rangeExpression trace) before :=
  operatorChain (additiveExpression h) (onSameLine (tokenAmong rfl))

theorem infixFunctionCall : Nests types before (Grammar.infixFunctionCall trace) before :=
  operatorChain (rangeExpression h) (onSameLine .word)

theorem elvisExpression : Nests types before (Grammar.elvisExpression trace) before :=
  operatorChain (infixFunctionCall h) (plain rfl)

theorem infixOperation : Nests types before (Grammar.infixOperation trace) before := by
  have hmembership : Nests types before (Grammar.tokenAmong [.inKeyword, .notIn]) before :=
    tokenAmong rfl
  have htest : Nests types before (Grammar.tokenAmong [.isKeyword, .notIs]) before :=
    tokenAmong rfl
  exact .andThen (elvisExpression h) (.andThen (.many (.orElse
    (.andThen (onSameLine hmembership) (.andThen (elvisExpression h) .nothing))
    (.andThen (onSameLine htest) (.andThen type .nothing)))) .nothing)

theorem genericCallLikeComparison :
    Nests types before (Grammar.genericCallLikeComparison trace) before :=
  .andThen (infixOperation h) (.andThen (.many (onSameLine callSuffix)) .nothing)

theorem comparison : Nests types before (Grammar.comparison trace) before :=
  operatorChain (genericCallLikeComparison h)
    (onSameLine (.orElse (less h) (.orElse (greater h) (.orElse (plain rfl) (plain rfl)))))

theorem equality : Nests types before (Grammar.equality trace) before :=
  operatorChain (comparison h) (onSameLine (tokenAmong rfl))

theorem conjunction : Nests types before (Grammar.conjunction trace) before :=
  operatorChain (equality h) (plain rfl)

theorem expressionBody : Nests types before (Grammar.expressionBody trace) before :=
  named (operatorChain (conjunction h) (plain rfl))

end

/-! ## Primary expressions and targets of assignments -/

theorem callableReference : Nests types before (Grammar.callableReference trace) before := by
  have hcolons : Nests types before (.token .colonColon) before := plain rfl
  exact named (.andThen (.optional receiverType)
    (.andThen hcolons (.andThen (.orElse .word (plain rfl)) .nothing)))

theorem collectionLiteral : Nests types before (Grammar.collectionLiteral trace) before :=
  named (inBrackets (.optional (commaList (expression rfl))))

theorem thisExpression : Nests types before Grammar.thisExpression before := by
  have hthis : Nests types before (.token .thisKeyword) before := plain rfl
  have hat : Nests types before (.token .atSign) before := plain rfl
  exact .andThen hthis (.andThen (.optional (.andThen hat (.andThen .word .nothing))) .nothing)

theorem primaryExpressionBody :
    Nests types before (Grammar.primaryExpressionBody trace) before := by
  have hliteral : Nests types before literalConstant before := tokenAmong rfl
  have hstring : Nests types before stringConstant before := tokenAmong rfl
  refine named (choice ?_)
  simp only [List.forall_mem_cons, List.not_mem_nil, false_imp_iff, implies_true, and_true]
  exact ⟨parenthesizedExpression, callableReference, .word, hliteral, hstring,
    .orElse lambdaLiteral omitted, omitted, collectionLiteral, thisExpression, omitted, omitted,
    omitted, omitted, omitted⟩

theorem directlyAssignableExpressionBody (h : Bracket.countsAngles types before = false) :
    Nests types before (Grammar.directlyAssignableExpressionBody trace) before := by
  have hsuffixes : Nests types before (Rule.many (Rule.seq [Grammar.postfixUnarySuffix trace,
      .ahead (Grammar.postfixUnarySuffix trace)])) before :=
    .many (.andThen postfixUnarySuffix (.andThen (.ahead postfixUnarySuffix) .nothing))
  exact named (.orElse
    (.andThen (.ref rfl (.inr h)) (.andThen hsuffixes (.andThen assignableSuffix .nothing)))
    (.orElse .word (inParens (.ref rfl (.inr rfl)))))

theorem assignableExpressionBody (h : Bracket.countsAngles types before = false) :
    Nests types before (Grammar.assignableExpressionBody trace) before :=
  named (.orElse (prefixUnaryExpression h) (inParens (.ref rfl (.inr rfl))))

/-- Whatever a recursive rule refers to, its body closes the brackets it opens. -/
theorem body {nonterminal : Nonterminal}
    (h : nonterminal.isType = true ∨ Bracket.countsAngles types before = false) :
    Nests types before (nonterminal.body trace) before := by
  cases nonterminal with
  | type => exact typeBody
  | annotationUse => exact annotationBody
  | parenthesizedUserType => exact parenthesizedUserTypeBody
  | expression => exact expressionBody (h.resolve_left (by simp [Nonterminal.isType]))
  | primaryExpression => exact primaryExpressionBody
  | directlyAssignableExpression =>
      exact directlyAssignableExpressionBody (h.resolve_left (by simp [Nonterminal.isType]))
  | assignableExpression =>
      exact assignableExpressionBody (h.resolve_left (by simp [Nonterminal.isType]))

theorem refersTo {after : List Bracket} {rule : TokenRule} (h : Nests types before rule after) :
    ∀ r, rule.RefersTo r → ∃ nonterminal : Nonterminal, nonterminal.index = r := by
  induction h with
  | andThen _ _ ihfirst ihsecond | orElse _ _ ihfirst ihsecond =>
      rintro r (hr | hr)
      · exact ihfirst r hr
      · exact ihsecond r hr
  | optional _ ih | many _ ih | ahead _ ih | notAhead _ ih | newlines _ ih | traced _ ih => exact ih
  | @ref _ nonterminal _ hindex _ => exact fun r hr => ⟨nonterminal, hindex.trans hr⟩
  | _ =>
      intro r hr
      cases hr

end Nests

theorem definitions_body? (trace : Bool) (nonterminal : Nonterminal) :
    (definitions trace).body? nonterminal.index = some (nonterminal.body trace) := by
  cases nonterminal <;> rfl

theorem exists_of_body? {trace : Bool} {r : Nat} {body : TokenRule}
    (h : (definitions trace).body? r = some body) :
    ∃ nonterminal : Nonterminal, nonterminal.index = r ∧ nonterminal.body trace = body := by
  rw [Definitions.body?, definitions, List.getElem?_toArray, List.getElem?_map] at h
  cases hr : Nonterminal.all[r]? with
  | none =>
      rw [hr] at h
      cases h
  | some nonterminal =>
      rw [hr] at h
      refine ⟨nonterminal, ?_, Option.some.inj h⟩
      have hlt : r < Nonterminal.all.length := (List.getElem?_eq_some_iff.1 hr).1
      have hnodup : Nonterminal.all.Nodup := by decide
      have hsame := hr.trans nonterminal.all_getElem_index.symm
      exact ((List.getElem?_inj hlt hnodup).1 hsame).symm

theorem definitions_closed (trace : Bool) :
    (definitions trace).Closed fun r => ∃ nonterminal : Nonterminal, nonterminal.index = r where
  defined := by
    rintro _ ⟨nonterminal, rfl⟩
    exact ⟨_, definitions_body? trace nonterminal⟩
  closed := by
    rintro _ body ⟨nonterminal, rfl⟩ hbody r hr
    obtain rfl := Option.some.inj ((definitions_body? trace nonterminal).symm.trans hbody)
    have hnests : Nests false [] (nonterminal.body trace) [] := .body (.inr rfl)
    exact hnests.refersTo r hr

/-- What holds of both entries, traced or not, holds of every entry under all settings. -/
theorem rule_cases {P : TokenRule → Prop} (hplain : ∀ trace, P (Grammar.plainEntry trace))
    (hfile : ∀ trace, P (Grammar.fileEntry trace)) (settings : Settings) (entry : Entry) :
    P ((Recognizer.build settings).rule entry) := by
  cases entry with
  | plain => exact hplain settings.traceRules
  | file => exact hfile settings.traceRules

end AnnotationScan.Grammar
