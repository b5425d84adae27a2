import AnnotationScan.Grammar.Types

/-!
# Annotations

An annotation is an at sign with a type and perhaps arguments, or with a list of those in brackets;
a use-site target may stand in front.  A `(` on the annotation's line always belongs to it: where
the arguments do not match, the annotation does not match either.  A use-site target needs its
colon, so `@get something` is the annotation `get`.
-/

namespace AnnotationScan.Grammar

open Peg

/-- The words that may stand between the at sign and a colon. -/
def useSiteTargets : List String :=
  ["field", "property", "get", "set", "receiver", "param", "setparam", "delegate"]

def targetPrefix : TokenRule :=
  Rule.seq [keywordAmong useSiteTargets, .token .colon]

section

variable (trace : Bool)

/-- An argument, with its name and a spread star or without. -/
def valueArgument : TokenRule :=
  named trace "valueArgument"
    (Rule.seq [.optional Nonterminal.annotationUse.rule,
      .optional (Rule.seq [.word, .token .assign]),
      .optional (.token .star),
      Nonterminal.expression.rule])

def valueArguments : TokenRule :=
  named trace "valueArguments" (inParens (.optional (commaList (valueArgument trace))))

/-- A type with arguments on its line. -/
def constructorInvocation : TokenRule :=
  named trace "constructorInvocation"
    (Rule.seq [userType trace, onSameLine (valueArguments trace)])

def annotationUnescaped : TokenRule :=
  named trace "unescapedAnnotation"
    (Rule.choice [constructorInvocation trace,
      Rule.seq [userType trace, .notAhead (onSameLine (.token .leftParen))]])

/-- Annotations without at signs, in brackets. -/
def annotationList : TokenRule :=
  inBrackets (Rule.atLeastOnce (annotationUnescaped trace))

def annotationSingle : TokenRule :=
  let unescaped := annotationUnescaped trace
  named trace "singleAnnotation"
    (Rule.seq [.token .atSign,
      Rule.choice [Rule.seq [targetPrefix, unescaped],
        Rule.seq [.notAhead targetPrefix, unescaped]]])

def annotationMulti : TokenRule :=
  named trace "multiAnnotation"
    (Rule.seq [.token .atSign, .optional targetPrefix, annotationList trace])

/-- An annotation inside other constructs. -/
def annotationBody : TokenRule :=
  named trace "annotation" (Rule.choice [annotationSingle trace, annotationMulti trace])

def plainEntry : TokenRule :=
  named trace "parseAnnotation" (Rule.choice [annotationSingle trace, annotationMulti trace])

def fileEntry : TokenRule :=
  named trace "parseFileAnnotation"
    (Rule.seq [.token .atSign, .keyword "file", .token .colon,
      Rule.choice [annotationUnescaped trace, annotationList trace]])

end

end AnnotationScan.Grammar
