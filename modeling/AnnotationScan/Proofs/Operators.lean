import AnnotationScan.Proofs.Acceptance

/-!
# Operator expressions

Expressions are written as rows of tokens, with parentheses only where an operator binds tighter than
the one inside its operand.  The arguments of an annotation may be any such expressions: at every
operand the grammar first tries what else may begin there, and none of that takes a token of them.
-/

namespace AnnotationScan

open Peg

namespace TokenKind

/-- The binary operators, in rows from the tightest to the loosest.  A name between two operands
calls a function. -/
def binaryOperators : List (List TokenKind) :=
  [[.star, .slash, .percent], [.plus, .minus], [.range, .rangeUntil], [.identifier], [.elvis],
    [.inKeyword, .notIn], [.lessOrEqual, .greaterOrEqual],
    [.notEqual, .notIdentical, .equal, .identical], [.conjunction], [.disjunction]]

def operands : List TokenKind :=
  [.identifier, .thisKeyword, .trueKeyword, .falseKeyword, .nullKeyword, .integerLiteral,
    .floatLiteral, .characterLiteral, .stringLiteral, .rawStringLiteral]

def signsInFront : List TokenKind := [.minus, .plus, .bang]

def commaSeparated (rows : List (List TokenKind)) : List TokenKind :=
  [TokenKind.comma].intercalate rows

/-- `Expression looseness row`: the row of tokens is an expression whose operators outside of all
brackets bind at least so tightly: there are suffixes only at 0, signs in front as well at 1, and at
`n + 2` the binary operators up to row `n`, each of which has its like on its left only. -/
inductive Expression : (looseness : Nat) → List TokenKind → Prop
  | operand {kind : TokenKind} (h : kind ∈ operands) : Expression 0 [kind]
  | parenthesized {row : List TokenKind} (h : Expression 11 row) :
      Expression 0 (.leftParen :: (row ++ [.rightParen]))
  | collection {rows : List (List TokenKind)} (h : ∀ row ∈ rows, Expression 11 row) :
      Expression 0 (.leftBracket :: (commaSeparated rows ++ [.rightBracket]))
  | call {callee : List TokenKind} {rows : List (List TokenKind)} (hcallee : Expression 0 callee)
      (h : ∀ row ∈ rows, Expression 11 row) :
      Expression 0 (callee ++ .leftParen :: (commaSeparated rows ++ [.rightParen]))
  | index {target : List TokenKind} {rows : List (List TokenKind)} (htarget : Expression 0 target)
      (hne : rows ≠ []) (h : ∀ row ∈ rows, Expression 11 row) :
      Expression 0 (target ++ .leftBracket :: (commaSeparated rows ++ [.rightBracket]))
  | member {target : List TokenKind} {access : TokenKind} (htarget : Expression 0 target)
      (h : access ∈ [.dot, .safeDot]) : Expression 0 (target ++ [access, .identifier])
  | asserted {target : List TokenKind} (htarget : Expression 0 target) :
      Expression 0 (target ++ [.bangBang])
  | signed {sign : TokenKind} {row : List TokenKind} (hsign : sign ∈ signsInFront)
      (h : Expression 1 row) : Expression 1 (sign :: row)
  | binary {n : Nat} {operators left right : List TokenKind} {operator : TokenKind}
      (hrow : binaryOperators[n]? = some operators) (hoperator : operator ∈ operators)
      (hleft : Expression (n + 2) left) (hright : Expression (n + 1) right) :
      Expression (n + 2) (left ++ operator :: right)
  | looser {looseness : Nat} {row : List TokenKind} (h : Expression looseness row)
      (hlt : looseness < 11) : Expression (looseness + 1) row

/-- What no operator expression contains, and where something else would begin. -/
def foreign : List TokenKind :=
  [.atSign, .colonColon, .leftBrace, .less, .greater, .assign, .asKeyword, .safeCast, .isKeyword,
    .notIs, .increment, .decrement]

/-- The tokens that continue an expression of some looseness. -/
def continuing : (looseness : Nat) → List TokenKind
  | 0 | 1 => [.bangBang, .leftParen, .leftBracket, .dot, .safeDot]
  | n + 2 => continuing (n + 1) ++ (binaryOperators[n]?).getD []

theorem Expression.head {looseness : Nat} {row : List TokenKind} (h : Expression looseness row) :
    ∃ kind rest, row = kind :: rest ∧
      (kind ∈ .leftParen :: .leftBracket :: operands ∨ 0 < looseness ∧ kind ∈ signsInFront) := by
  induction h with
  | operand h => exact ⟨_, _, rfl, .inl (List.mem_cons_of_mem _ (List.mem_cons_of_mem _ h))⟩
  | parenthesized | collection => exact ⟨_, _, rfl, .inl (by simp)⟩
  | call _ _ ih | index _ _ _ ih | member _ _ ih | asserted _ ih =>
      obtain ⟨kind, rest, rfl, hkind⟩ := ih
      exact ⟨kind, _, rfl, hkind⟩
  | signed hsign => exact ⟨_, _, rfl, .inr ⟨Nat.one_pos, hsign⟩⟩
  | binary _ _ _ _ ih =>
      obtain ⟨kind, rest, rfl, hkind⟩ := ih
      exact ⟨kind, _, rfl, hkind⟩
  | looser _ _ ih =>
      obtain ⟨kind, rest, rfl, hkind⟩ := ih
      exact ⟨kind, _, rfl, hkind.imp id fun h => ⟨Nat.succ_pos _, h.2⟩⟩

theorem Expression.mono {tight loose : Nat} {row : List TokenKind} (h : Expression tight row)
    (hle : tight ≤ loose) (hlast : loose ≤ 11) : Expression loose row := by
  induction hle with
  | refl => exact h
  | step hle ih => exact (ih (Nat.le_of_lt hlast)).looser hlast

theorem mem_commaSeparated {kind : TokenKind} {rows : List (List TokenKind)}
    (h : kind ∈ commaSeparated rows) : kind = .comma ∨ ∃ row ∈ rows, kind ∈ row := by
  induction rows with
  | nil => simp [commaSeparated] at h
  | cons row rows ih =>
      cases rows with
      | nil => exact .inr ⟨row, by simp, by simpa [commaSeparated] using h⟩
      | cons next rows =>
          simp only [commaSeparated, List.intercalate_cons_cons, List.mem_append,
            List.mem_singleton] at h ih
          grind

theorem notMem_foreign_commaSeparated {rows : List (List TokenKind)}
    (h : ∀ row ∈ rows, ∀ kind ∈ row, kind ∉ foreign) : ∀ kind ∈ commaSeparated rows, kind ∉ foreign := by
  intro kind hkind
  rcases mem_commaSeparated hkind with rfl | ⟨row, hrow, hmem⟩
  · decide
  · exact h row hrow kind hmem

theorem Expression.notMem_foreign {looseness : Nat} {row : List TokenKind}
    (h : Expression looseness row) : ∀ kind ∈ row, kind ∉ foreign := by
  induction h with
  | operand h => simpa using (by decide : ∀ kind ∈ operands, kind ∉ foreign) _ h
  | parenthesized _ ih => simpa [or_imp, forall_and] using ⟨by decide, ih, by decide⟩
  | collection _ ih => simpa [or_imp, forall_and] using ⟨by decide, notMem_foreign_commaSeparated ih, by decide⟩
  | call _ _ ihcallee ih | index _ _ _ ihcallee ih =>
      simpa [or_imp, forall_and] using ⟨ihcallee, by decide, notMem_foreign_commaSeparated ih, by decide⟩
  | member _ h ih =>
      have haccess := (by decide : ∀ kind ∈ [dot, safeDot], kind ∉ foreign) _ h
      simpa [or_imp, forall_and] using ⟨ih, haccess, by decide⟩
  | asserted _ ih => simpa [or_imp, forall_and] using ⟨ih, by decide⟩
  | signed hsign _ ih =>
      have hsign := (by decide : ∀ kind ∈ signsInFront, kind ∉ foreign) _ hsign
      simpa [or_imp, forall_and] using ⟨hsign, ih⟩
  | binary hrow hoperator _ _ ihleft ihright =>
      have hoperator := (by decide : ∀ row ∈ binaryOperators, ∀ kind ∈ row, kind ∉ foreign) _
        (List.mem_of_getElem? hrow) _ hoperator
      simpa [or_imp, forall_and] using ⟨ihleft, hoperator, ihright⟩
  | looser _ _ ih => exact ih

end TokenKind
end AnnotationScan
