import AnnotationScan.Grammar.Recognizer
import AnnotationScan.Proofs.Peg.Closed

/-!
# Brackets in the grammar

A row of tokens is read with the brackets that are open before each token.  Angle brackets are
brackets in types only; in parentheses, brackets and braces they are taken for signs.  Every rule of
the annotation grammar has a type with respect to this reading: the brackets open in front of it and
those open behind it.
-/

namespace AnnotationScan

open Peg

/-- A bracket whose counterpart is still to come. -/
inductive Bracket where
  | paren
  | bracket
  | brace
  | angle
deriving DecidableEq

namespace TokenKind

def isUnsupported : TokenKind → Bool
  | .breakKeyword | .continueKeyword | .doKeyword | .elseKeyword | .forKeyword | .funKeyword
  | .ifKeyword | .interfaceKeyword | .objectKeyword | .packageKeyword | .returnKeyword
  | .superKeyword | .throwKeyword | .tryKeyword | .typeAliasKeyword | .typeOfKeyword | .valKeyword
  | .varKeyword | .whenKeyword | .whileKeyword | .doubleArrow | .hash | .dollar | .malformed
  | .endOfInput => true
  | _ => false

/-- The bracket that a token opens, where angle brackets count or not. -/
def opened? (angles : Bool) : TokenKind → Option Bracket
  | .leftParen => some .paren
  | .leftBracket => some .bracket
  | .leftBrace => some .brace
  | .less => if angles then some .angle else none
  | _ => none

/-- The bracket that a token closes, where angle brackets count or not. -/
def closed? (angles : Bool) : TokenKind → Option Bracket
  | .rightParen => some .paren
  | .rightBracket => some .bracket
  | .rightBrace => some .brace
  | .greater => if angles then some .angle else none
  | _ => none

/-- The token is taken wherever it stands and is no bracket, not even an angle bracket. -/
def isPlain (kind : TokenKind) : Bool :=
  !kind.isUnsupported && (kind.opened? true).isNone && (kind.closed? true).isNone

theorem opened?_of_isPlain {kind : TokenKind} (h : kind.isPlain = true) (angles : Bool) :
    kind.opened? angles = none := by
  cases kind <;> first | rfl | cases h

theorem closed?_of_isPlain {kind : TokenKind} (h : kind.isPlain = true) (angles : Bool) :
    kind.closed? angles = none := by
  cases kind <;> first | rfl | cases h

end TokenKind

/-- Whether angle brackets count inside the innermost open bracket; `types` is the answer where
none is open. -/
def Bracket.countsAngles (types : Bool) : List Bracket → Bool
  | [] => types
  | b :: _ => b = .angle

/-- The brackets that are open behind a token; none if the token is not taken there. -/
def Bracket.read (types : Bool) (before : List Bracket) (kind : TokenKind) :
    Option (List Bracket) :=
  let angles := countsAngles types before
  if kind.isUnsupported then none
  else
    match kind.opened? angles, kind.closed? angles with
    | some b, _ => some (b :: before)
    | none, some b => if before.head? = some b then some before.tail else none
    | none, none => some before

namespace Bracket

variable {types : Bool} {before : List Bracket}

theorem read_plain {kind : TokenKind} (h : kind.isPlain = true) :
    read types before kind = some before := by
  have hsupported : kind.isUnsupported = false := by
    revert h
    cases kind <;> simp [TokenKind.isPlain, TokenKind.isUnsupported]
  simp [read, hsupported, TokenKind.opened?_of_isPlain h, TokenKind.closed?_of_isPlain h]

/-- With some brackets around it the row reads as it does on its own, until the innermost of them
is closed. -/
theorem read_append {b : Bracket} {outer after : List Bracket} {kind : TokenKind}
    (h : read types (before ++ b :: outer) kind = some after) :
    before = [] ∧ after = outer ∧ read (b = .angle) [] kind = none ∧
        kind.closed? (b = .angle) = some b ∨
      ∃ inner, read (b = .angle) before kind = some inner ∧ after = inner ++ b :: outer := by
  have hangles : countsAngles types (before ++ b :: outer) = countsAngles (b = .angle) before := by
    cases before <;> rfl
  simp only [read, hangles] at h ⊢
  split at h
  case isTrue => cases h
  case isFalse hsupported =>
    simp only [hsupported]
    split at h
    case h_1 b' hopened =>
      refine .inr ⟨b' :: before, by simp, ?_⟩
      exact (Option.some.inj h).symm
    case h_2 b' hopened hclosed =>
      split at h
      case isFalse => cases h
      case isTrue hhead =>
        cases before with
        | nil =>
            obtain rfl : b = b' := by simpa using hhead
            refine .inl ⟨rfl, ?_, ?_, hclosed⟩
            · simpa using h.symm
            · simp [hopened, hclosed]
        | cons c before =>
            obtain rfl : c = b' := by simpa using hhead
            refine .inr ⟨before, by simp, ?_⟩
            simpa using h.symm
    case h_3 hopened hclosed =>
      refine .inr ⟨before, by simp, ?_⟩
      exact (Option.some.inj h).symm

end Bracket
end AnnotationScan
