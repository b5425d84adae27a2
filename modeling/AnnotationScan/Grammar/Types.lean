import AnnotationScan.Grammar.Basic

/-!
# Types

User types with type arguments, nullable types, function types and types that are definitely not
nullable, each with modifiers in front.
-/

namespace AnnotationScan.Grammar

open Peg

/-- One annotation or the word `suspend`, or several of them. -/
def typeModifiers : TokenRule :=
  Rule.atLeastOnce (Rule.choice [Nonterminal.annotationUse.rule, .keyword "suspend"])

/-- The word `in` or `out` in front of a type argument. -/
def varianceModifier : TokenRule :=
  Rule.choice [.token .inKeyword, .keyword "out"]

/-- A type argument: a type with modifiers of its variance, or a star. -/
def typeProjection : TokenRule :=
  Rule.choice [
    Rule.seq [
      .optional (Rule.atLeastOnce (Rule.choice [varianceModifier, Nonterminal.annotationUse.rule])),
      Nonterminal.type.rule],
    .token .star]

section

variable (trace : Bool)

def typeArguments : TokenRule :=
  named trace "typeArguments"
    (Rule.seq [.token .less, commaList typeProjection, .token .greater])

def simpleUserType : TokenRule :=
  named trace "simpleUserType" (Rule.seq [.word, .optional (typeArguments trace)])

def userType : TokenRule :=
  named trace "userType"
    (Rule.seq [simpleUserType trace, .many (Rule.seq [.token .dot, simpleUserType trace])])

def typeReference : TokenRule :=
  Rule.choice [userType trace, .keyword "dynamic"]

def parenthesizedType : TokenRule := inParens Nonterminal.type.rule

def nullableType : TokenRule :=
  Rule.seq [Rule.choice [typeReference trace, parenthesizedType],
    Rule.atLeastOnce (.token .question)]

def receiverType : TokenRule :=
  named trace "receiverType"
    (Rule.seq [.optional typeModifiers,
      Rule.choice [nullableType trace, parenthesizedType, typeReference trace]])

/-- The parameters of a function type, with names or without. -/
def functionTypeParameters : TokenRule :=
  let parameter := Rule.seq [.word, .token .colon, Nonterminal.type.rule]
  inParens (.optional (commaList (Rule.choice [parameter, Nonterminal.type.rule])))

def functionType : TokenRule :=
  named trace "functionType"
    (Rule.seq [.optional (Rule.seq [receiverType trace, .token .dot]), functionTypeParameters,
      .token .arrow, Nonterminal.type.rule])

def definitelyNonNullableType : TokenRule :=
  let operand := Rule.choice [userType trace, Nonterminal.parenthesizedUserType.rule]
  Rule.seq [.optional typeModifiers, operand, .token .ampersand, .optional typeModifiers, operand]

def typeBody : TokenRule :=
  named trace "type"
    (Rule.seq [.optional typeModifiers,
      Rule.choice [functionType trace, definitelyNonNullableType trace, nullableType trace,
        parenthesizedType, typeReference trace]])

/-- A user type in any number of parentheses. -/
def parenthesizedUserTypeBody : TokenRule :=
  inParens (Rule.choice [userType trace, Nonterminal.parenthesizedUserType.rule])

end

end AnnotationScan.Grammar
