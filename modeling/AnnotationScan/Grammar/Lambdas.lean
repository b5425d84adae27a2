import AnnotationScan.Grammar.Types

/-!
# Lambdas and statements

A lambda has parameters and a body of statements, which semicolons or line breaks separate.
Declarations and loops are left out on purpose: a statement that would need one does not match.
-/

namespace AnnotationScan.Grammar

open Peg

def label : TokenRule := Rule.seq [.word, .token .atSign]

/-- What separates statements: semicolons or a line break. -/
def separator : TokenRule :=
  Rule.choice [Rule.atLeastOnce (.token .semicolon), .lineBreak]

def typeAscription : TokenRule :=
  .optional (Rule.seq [.token .colon, Nonterminal.type.rule])

def variableDeclaration : TokenRule :=
  Rule.seq [.many Nonterminal.annotationUse.rule, .word, typeAscription]

/-- A parameter of a lambda: one variable, or several taken apart from one value. -/
def lambdaParameter : TokenRule :=
  Rule.choice [variableDeclaration,
    Rule.seq [inParens (commaList variableDeclaration), typeAscription]]

def compoundAssignment : TokenRule :=
  tokenAmong [.plusAssign, .minusAssign, .starAssign, .slashAssign, .percentAssign]

section

variable (trace : Bool)

def declaration : TokenRule :=
  Rule.choice [omitted trace "classDeclaration", omitted trace "objectDeclaration",
    omitted trace "functionDeclaration", omitted trace "propertyDeclaration",
    omitted trace "typeAlias"]

def assignment : TokenRule :=
  named trace "assignment"
    (Rule.seq [
      Rule.choice [
        Rule.seq [Nonterminal.directlyAssignableExpression.rule, .token .assign],
        Rule.seq [Nonterminal.assignableExpression.rule, compoundAssignment]],
      Nonterminal.expression.rule])

/-- A statement with labels and annotations in front. -/
def statement : TokenRule :=
  named trace "statement"
    (Rule.seq [.many (Rule.choice [label, Nonterminal.annotationUse.rule]),
      Rule.choice [declaration trace, assignment trace, omitted trace "loopStatement",
        Nonterminal.expression.rule]])

/-- Statements with separators between them, and perhaps behind them. -/
def statements : TokenRule :=
  let one := statement trace
  Rule.seq [.optional (Rule.seq [one, .many (Rule.seq [separator, one])]), .optional separator]

def lambdaLiteral : TokenRule :=
  named trace "lambdaLiteral"
    (inBraces (Rule.seq [
      .optional (Rule.seq [.optional (commaList lambdaParameter), .token .arrow]),
      statements trace]))

/-- A lambda behind a call, with annotations and a label in front. -/
def annotatedLambda : TokenRule :=
  Rule.seq [.many Nonterminal.annotationUse.rule, .optional label, lambdaLiteral trace]

end

end AnnotationScan.Grammar
