import AnnotationScan.Peg.Rule
import AnnotationScan.Peg.Source
import AnnotationScan.Token.List

/-!
# Rules over tokens

The recursive rules of the annotation grammar and the shapes its productions are made of.  Inside
parentheses and brackets a line break is mere white space; inside braces it counts again.  With
`trace`, productions that have a name are noted under it in the trace log.
-/

namespace AnnotationScan

open Peg

instance : Describe TokenKind := ⟨TokenKind.description⟩

/-- The row of lexemes that a token list closed by an end marker gives.  A list of no tokens has
nothing but an end. -/
def TokenList.toSource (list : TokenList) : Source TokenKind :=
  let lexeme (token : Token) : Lexeme TokenKind :=
    { kind := token.kind
      span := token.span
      text := list.textAt token.span
      isWord := token.kind == .identifier
      newlineBefore := token.before.lineFeed }
  let stop : Token := ⟨.endOfInput, Span.point list.source.utf8ByteSize, .empty⟩
  { body := list.tokens.pop.map lexeme
    marker := lexeme (list.tokens.back?.getD stop) }

namespace Grammar

abbrev TokenRule := Rule TokenKind

/-- The rules of the annotation grammar that refer to themselves. -/
inductive Nonterminal where
  | type
  | annotationUse
  | parenthesizedUserType
  | expression
  | primaryExpression
  | directlyAssignableExpression
  | assignableExpression
deriving DecidableEq, Repr, Inhabited

namespace Nonterminal

def all : List Nonterminal :=
  [.type, .annotationUse, .parenthesizedUserType, .expression, .primaryExpression,
    .directlyAssignableExpression, .assignableExpression]

def index : Nonterminal → Nat
  | .type => 0
  | .annotationUse => 1
  | .parenthesizedUserType => 2
  | .expression => 3
  | .primaryExpression => 4
  | .directlyAssignableExpression => 5
  | .assignableExpression => 6

def name : Nonterminal → String
  | .type => "type"
  | .annotationUse => "annotation"
  | .parenthesizedUserType => "parenthesizedUserType"
  | .expression => "expression"
  | .primaryExpression => "primaryExpression"
  | .directlyAssignableExpression => "directlyAssignableExpression"
  | .assignableExpression => "assignableExpression"

def rule (nonterminal : Nonterminal) : TokenRule := .ref nonterminal.index

theorem all_getElem_index (nonterminal : Nonterminal) :
    all[nonterminal.index]? = some nonterminal := by
  cases nonterminal <;> rfl

theorem mem_all (nonterminal : Nonterminal) : nonterminal ∈ all :=
  List.mem_of_getElem? nonterminal.all_getElem_index

end Nonterminal

/-- A production with its name for the trace log. -/
def named (trace : Bool) (name : String) (rule : TokenRule) : TokenRule :=
  if trace then .traced name rule else rule

/-- A production that is left out on purpose. -/
def omitted (trace : Bool) (name : String) : TokenRule :=
  named trace name (Rule.stub name)

def tokenAmong (kinds : List TokenKind) : TokenRule :=
  Rule.choice (kinds.map Rule.token)

def keywordAmong (words : List String) : TokenRule :=
  Rule.choice (words.map Rule.keyword)

/-- A rule in front of which there is no line break. -/
def onSameLine (part : TokenRule) : TokenRule :=
  Rule.seq [.notAhead .lineBreak, part]

/-- One or more items with commas between them, and perhaps one behind the last. -/
def commaList (item : TokenRule) : TokenRule :=
  Rule.seq [item, .many (Rule.seq [.token .comma, item]), .optional (.token .comma)]

/-- Operands with operators between them. -/
def operatorChain (operand operator : TokenRule) : TokenRule :=
  Rule.seq [operand, .many (Rule.seq [operator, operand])]

def inParens (content : TokenRule) : TokenRule :=
  Rule.wrapped (.token .leftParen) (.newlines false content) (.token .rightParen)

def inBrackets (content : TokenRule) : TokenRule :=
  Rule.wrapped (.token .leftBracket) (.newlines false content) (.token .rightBracket)

def inBraces (content : TokenRule) : TokenRule :=
  Rule.wrapped (.token .leftBrace) (.newlines true content) (.token .rightBrace)

end Grammar
end AnnotationScan
