import AnnotationScan.Grammar.Annotations
import AnnotationScan.Grammar.Lambdas

/-!
# Expressions

Expressions from their smallest parts up to disjunctions, the loosest binding last.  Operators that
may not start a line, and suffixes that look like calls, stay on the line of their left operand;
`&&`, `||`, `?:` and member access may start a line.
-/

namespace AnnotationScan.Grammar

open Peg

/-- A constant that is no string. -/
def literalConstant : TokenRule :=
  tokenAmong [.trueKeyword, .falseKeyword, .integerLiteral, .floatLiteral, .characterLiteral,
    .nullKeyword]

def stringConstant : TokenRule := tokenAmong [.stringLiteral, .rawStringLiteral]

/-- The word `this`, with a label behind it or without. -/
def thisExpression : TokenRule :=
  Rule.seq [.token .thisKeyword, .optional (Rule.seq [.token .atSign, .word])]

def parenthesizedExpression : TokenRule := inParens Nonterminal.expression.rule

def indexingSuffix : TokenRule := inBrackets (commaList Nonterminal.expression.rule)

section

variable (trace : Bool)

/-! ## Suffixes -/

/-- The arguments of a call, with type arguments in front and a lambda behind. -/
def callSuffix : TokenRule :=
  let arguments := valueArguments trace
  named trace "callSuffix"
    (Rule.seq [.optional (typeArguments trace),
      Rule.choice [Rule.seq [.optional arguments, annotatedLambda trace], arguments]])

def navigationSuffix : TokenRule :=
  named trace "navigationSuffix"
    (Rule.seq [tokenAmong [.dot, .safeDot, .colonColon],
      Rule.choice [.word, parenthesizedExpression, .token .classKeyword]])

/-- Whatever may stand behind an operand. -/
def postfixUnarySuffix : TokenRule :=
  Rule.choice [onSameLine (tokenAmong [.increment, .decrement, .bangBang]), typeArguments trace,
    onSameLine (callSuffix trace), onSameLine indexingSuffix, navigationSuffix trace]

/-- A suffix that may be assigned to. -/
def assignableSuffix : TokenRule :=
  Rule.choice [typeArguments trace, indexingSuffix, navigationSuffix trace]

/-! ## Operators, loosest binding last -/

def postfixUnaryExpression : TokenRule :=
  named trace "postfixUnaryExpression"
    (Rule.seq [Nonterminal.primaryExpression.rule, .many (postfixUnarySuffix trace)])

/-- An operand with annotations, labels and signs in front. -/
def prefixUnaryExpression : TokenRule :=
  named trace "prefixUnaryExpression"
    (Rule.seq [
      .many (Rule.choice [Nonterminal.annotationUse.rule, label,
        tokenAmong [.increment, .decrement, .minus, .plus, .bang]]),
      postfixUnaryExpression trace])

/-- Casts, each with a type on its right. -/
def asExpression : TokenRule :=
  Rule.seq [prefixUnaryExpression trace,
    .many (Rule.seq [onSameLine (tokenAmong [.asKeyword, .safeCast]), Nonterminal.type.rule])]

def multiplicativeExpression : TokenRule :=
  operatorChain (asExpression trace) (onSameLine (tokenAmong [.star, .slash, .percent]))

def additiveExpression : TokenRule :=
  operatorChain (multiplicativeExpression trace) (onSameLine (tokenAmong [.plus, .minus]))

def rangeExpression : TokenRule :=
  operatorChain (additiveExpression trace) (onSameLine (tokenAmong [.range, .rangeUntil]))

def infixFunctionCall : TokenRule :=
  operatorChain (rangeExpression trace) (onSameLine .word)

def elvisExpression : TokenRule :=
  operatorChain (infixFunctionCall trace) (.token .elvis)

/-- Tests for membership, with an operand, and for types, with a type. -/
def infixOperation : TokenRule :=
  let operand := elvisExpression trace
  Rule.seq [operand,
    .many (Rule.choice [
      Rule.seq [onSameLine (tokenAmong [.inKeyword, .notIn]), operand],
      Rule.seq [onSameLine (tokenAmong [.isKeyword, .notIs]), Nonterminal.type.rule]])]

/-- An operand whose angle brackets may turn out to be type arguments of a call. -/
def genericCallLikeComparison : TokenRule :=
  Rule.seq [infixOperation trace, .many (onSameLine (callSuffix trace))]

def comparison : TokenRule :=
  operatorChain (genericCallLikeComparison trace)
    (onSameLine (tokenAmong [.less, .greater, .lessOrEqual, .greaterOrEqual]))

def equality : TokenRule :=
  operatorChain (comparison trace)
    (onSameLine (tokenAmong [.notEqual, .notIdentical, .equal, .identical]))

def conjunction : TokenRule := operatorChain (equality trace) (.token .conjunction)

/-- An expression: disjunctions. -/
def expressionBody : TokenRule :=
  named trace "expression" (operatorChain (conjunction trace) (.token .disjunction))

/-! ## Primary expressions and targets of assignments -/

def callableReference : TokenRule :=
  named trace "callableReference"
    (Rule.seq [.optional (receiverType trace), .token .colonColon,
      Rule.choice [.word, .token .classKeyword]])

def collectionLiteral : TokenRule :=
  named trace "collectionLiteral"
    (inBrackets (.optional (commaList Nonterminal.expression.rule)))

/-- An operand without signs and suffixes. -/
def primaryExpressionBody : TokenRule :=
  named trace "primaryExpression"
    (Rule.choice [parenthesizedExpression, callableReference trace, .word, literalConstant,
      stringConstant,
      Rule.choice [lambdaLiteral trace, omitted trace "anonymousFunction"],
      omitted trace "objectLiteral", collectionLiteral trace, thisExpression,
      omitted trace "superExpression", omitted trace "ifExpression",
      omitted trace "whenExpression", omitted trace "tryExpression",
      omitted trace "jumpExpression"])

/-- The target of a plain assignment.  It ends in a suffix that may be assigned to: suffixes are
taken as long as another one follows, so that the last one can be checked. -/
def directlyAssignableExpressionBody : TokenRule :=
  let suffix := postfixUnarySuffix trace
  named trace "directlyAssignableExpression"
    (Rule.choice [
      Rule.seq [Nonterminal.primaryExpression.rule, .many (Rule.seq [suffix, .ahead suffix]),
        assignableSuffix trace],
      .word,
      inParens Nonterminal.directlyAssignableExpression.rule])

/-- The target of an assignment in place. -/
def assignableExpressionBody : TokenRule :=
  named trace "assignableExpression"
    (Rule.choice [prefixUnaryExpression trace, inParens Nonterminal.assignableExpression.rule])

end

end AnnotationScan.Grammar
