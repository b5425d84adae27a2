import AnnotationScan.Proofs.Grammar.Decisions

/-!
# What the first token decides

Of many rules the kind of the first token is enough to tell that they do not match, whatever comes
behind it.  `verdict?` finds this out by a walk through a rule, so that a production which starts in
many ways is settled by evaluation.
-/

namespace AnnotationScan.Grammar

open Peg

/-- What a rule does at a token of a kind that is not the identifier's: it matches no token there
(`some true`) or does not match (`some false`), unless that depends on more than the kind. -/
def verdict? (kind : TokenKind) : TokenRule → Option Bool
  | .token expected => if expected = kind then none else some false
  | .word | .keyword _ => some false
  | .fail reason => if reason.isFatal then none else some false
  | .nothing => some true
  | .andThen first second =>
    match verdict? kind first with
    | some true => verdict? kind second
    | some false => some false
    | none => if first = .notAhead .lineBreak ∧ verdict? kind second = some false then some false
      else none
  | .orElse first second =>
    match verdict? kind first with
    | some false => verdict? kind second
    | verdict => verdict
  | .optional part | .many part => (verdict? kind part).map fun _ => true
  | .ahead part => verdict? kind part
  | .notAhead part => (verdict? kind part).map not
  | .newlines _ part | .traced _ part => verdict? kind part
  | .ref rule =>
    if rule = Nonterminal.annotationUse.index ∧ kind ≠ .atSign then some false else none
  | _ => none

variable {source : Source TokenKind} {trace m : Bool} {rule part second : TokenRule} {i j : Nat}
  {kind : TokenKind}

/-- The rule matches no token, or it does not match. -/
def Follows (source : Source TokenKind) (trace : Bool) (rule : TokenRule) (m : Bool) (i : Nat) :
    (verdict : Bool) → Prop
  | true => Matches source (definitions trace) rule m i i
  | false => Refuses source (definitions trace) rule m i

theorem refuses_behind_notAhead (h : Refuses source (definitions trace) second m i) :
    Refuses source (definitions trace) (.andThen (.notAhead .lineBreak) second) m i := by
  rw [refuses_andThen, refuses_notAhead]
  cases hline : m && (source.lexeme i).newlineBefore with
  | true =>
      rw [Bool.and_eq_true] at hline
      exact .inl ⟨i, matches_lineBreak.2 ⟨hline.1, hline.2, rfl⟩⟩
  | false => exact .inr ⟨i, matches_notAhead.2 ⟨refuses_lineBreak.2 hline, rfl⟩, h⟩

/-- The verdict is right at every token of the kind, also where line breaks count. -/
theorem follows_verdict (hkind : (source.lexeme i).kind = kind)
    (hword : (source.lexeme i).isWord = false) :
    ∀ {verdict}, verdict? kind rule = some verdict → Follows source trace rule m i verdict := by
  induction rule generalizing m with
  | token expected =>
      intro verdict h
      rw [verdict?, Option.ite_none_left_eq_some] at h
      obtain ⟨hne, ⟨⟩⟩ := h
      exact refuses_token.2 (hkind ▸ Ne.symm hne)
  | word =>
      rintro _ ⟨⟩
      exact refuses_word.2 hword
  | keyword text =>
      rintro _ ⟨⟩
      exact refuses_keyword.2 fun h => Bool.eq_false_iff.1 hword h.1
  | fail reason =>
      intro verdict h
      rw [verdict?, Option.ite_none_left_eq_some] at h
      obtain ⟨hfatal, ⟨⟩⟩ := h
      exact refuses_fail (Bool.eq_false_iff.2 hfatal)
  | nothing =>
      rintro _ ⟨⟩
      exact matches_nothing.2 rfl
  | andThen first second ihfirst ihsecond =>
      intro verdict h
      rw [verdict?] at h
      split at h
      case h_1 hfirst =>
        have hstay := ihfirst (m := m) hfirst
        have hthen := ihsecond (m := m) h
        cases verdict with
        | true => exact matches_andThen.2 ⟨i, hstay, hthen⟩
        | false => exact refuses_andThen.2 (.inr ⟨i, hstay, hthen⟩)
      case h_2 hfirst =>
        cases h
        exact refuses_andThen.2 (.inl (ihfirst hfirst))
      -- a line break may be there or not: the second part refuses either way
      case h_3 hfirst =>
        rw [Option.ite_none_right_eq_some] at h
        obtain ⟨⟨rfl, hsecond⟩, ⟨⟩⟩ := h
        exact refuses_behind_notAhead (ihsecond hsecond)
  | orElse first second ihfirst ihsecond =>
      intro verdict h
      rw [verdict?] at h
      split at h
      case h_1 hfirst =>
        have hnone := ihfirst (m := m) hfirst
        have hother := ihsecond (m := m) h
        cases verdict with
        | true => exact matches_orElse.2 (.inr ⟨hnone, hother⟩)
        | false => exact refuses_orElse.2 ⟨hnone, hother⟩
      case h_2 hfirst =>
        cases verdict with
        | true => exact matches_orElse.2 (.inl (ihfirst h))
        | false => exact absurd h hfirst
  | optional part ih =>
      intro verdict h
      obtain ⟨answer, hpart, rfl⟩ := Option.map_eq_some_iff.1 h
      have hfollows := ih (m := m) hpart
      cases answer with
      | true => exact matches_optional.2 (.inl hfollows)
      | false => exact matches_optional.2 (.inr ⟨hfollows, rfl⟩)
  | many part ih =>
      intro verdict h
      obtain ⟨answer, hpart, rfl⟩ := Option.map_eq_some_iff.1 h
      have hfollows := ih (m := m) hpart
      cases answer with
      | true => exact matches_many.2 (.inl ⟨.inr hfollows, rfl⟩)
      | false => exact hfollows.matches_many
  | ahead part ih =>
      intro verdict h
      have hfollows := ih (m := m) h
      cases verdict with
      | true => exact matches_ahead.2 ⟨⟨i, hfollows⟩, rfl⟩
      | false => exact refuses_ahead.2 hfollows
  | notAhead part ih =>
      intro verdict h
      obtain ⟨answer, hpart, rfl⟩ := Option.map_eq_some_iff.1 h
      have hfollows := ih (m := m) hpart
      cases answer with
      | true => exact refuses_notAhead.2 ⟨i, hfollows⟩
      | false => exact matches_notAhead.2 ⟨hfollows, rfl⟩
  | newlines count part ih =>
      intro verdict h
      have hfollows := ih (m := count) h
      cases verdict with
      | true => exact matches_newlines.2 hfollows
      | false => exact refuses_newlines.2 hfollows
  | traced name part ih =>
      intro verdict h
      have hfollows := ih (m := m) h
      cases verdict with
      | true => exact matches_traced.2 hfollows
      | false => exact refuses_traced.2 hfollows
  | ref r =>
      intro verdict h
      rw [verdict?, Option.ite_none_right_eq_some] at h
      obtain ⟨⟨rfl, hat⟩, ⟨⟩⟩ := h
      exact refuses_annotationUse (hkind ▸ hat)
  | any | lineBreak | failNext _ | endPoint _ _ => exact fun h => nomatch h

theorem refuses_of_verdict (hsource : source.Marked) (hne : (source.lexeme i).kind ≠ .identifier)
    (h : verdict? (source.lexeme i).kind rule = some false) :
    Refuses source (definitions trace) rule m i := by
  have hword : (source.lexeme i).isWord = false :=
    Bool.eq_false_iff.2 fun hword => hne (hsource.word i hword)
  have hfollows : Follows source trace rule m i false := follows_verdict rfl hword h
  exact hfollows

/-! ## Literals -/

def literals : List TokenKind :=
  [.trueKeyword, .falseKeyword, .integerLiteral, .floatLiteral, .characterLiteral, .nullKeyword,
    .stringLiteral, .rawStringLiteral]

theorem verdict?_literals : ∀ trace, ∀ kind ∈ literals,
    verdict? kind parenthesizedExpression = some false ∧
      verdict? kind (callableReference trace) = some false ∧
      verdict? kind (inParens Nonterminal.directlyAssignableExpression.rule) = some false := by
  decide

theorem ne_identifier_of_literals : ∀ kind ∈ literals, kind ≠ .identifier := by decide

theorem matches_literal (hsource : source.Marked) (hkind : (source.lexeme i).kind ∈ literals) :
    Matches source (definitions trace) Nonterminal.primaryExpression.rule m i (source.next i) := by
  have hne := ne_identifier_of_literals _ hkind
  obtain ⟨hparens, hreference, -⟩ := verdict?_literals trace _ hkind
  have hword : (source.lexeme i).isWord = false :=
    Bool.eq_false_iff.2 fun hword => hne (hsource.word i hword)
  refine matches_nonterminal.2 (matches_named.2 ?_)
  refine matches_orElse.2 (.inr ⟨refuses_of_verdict hsource hne hparens, ?_⟩)
  refine matches_orElse.2 (.inr ⟨refuses_of_verdict hsource hne hreference, ?_⟩)
  refine matches_orElse.2 (.inr ⟨refuses_word.2 hword, matches_orElse.2 ?_⟩)
  rw [literalConstant, matches_tokenAmong, refuses_tokenAmong, or_iff_not_imp_left, not_and_or]
  intro hconstant
  have hstring := hconstant.resolve_right (not_not.2 rfl)
  refine ⟨hstring, matches_orElse.2 (.inl (matches_tokenAmong.2 ⟨?_, rfl⟩))⟩
  exact (List.mem_append (s := [.trueKeyword, .falseKeyword, .integerLiteral, .floatLiteral,
    .characterLiteral, .nullKeyword]).1 hkind).resolve_left hstring

def plainTarget : TokenRule :=
  Rule.seq [Nonterminal.directlyAssignableExpression.rule, .token .assign]

/-- A literal that no suffix follows is no target of a plain assignment, unless a suffix that may be
assigned to leads to the equals sign. -/
theorem refuses_plainTarget (hsource : source.Marked) (hkind : (source.lexeme i).kind ∈ literals)
    (hsuffix : Refuses source (definitions trace) (postfixUnarySuffix trace) m (source.next i))
    (hassign : ∀ k,
      Matches source (definitions trace) (assignableSuffix trace) m (source.next i) k →
        (source.lexeme k).kind ≠ .assign) :
    Refuses source (definitions trace) plainTarget m i := by
  have hne := ne_identifier_of_literals _ hkind
  have hmany : Matches source (definitions trace) (.many (Rule.seq
      [postfixUnarySuffix trace, .ahead (postfixUnarySuffix trace)])) m (source.next i)
      (source.next i) := (refuses_seq hsuffix).matches_many
  have hnests : Nests true [] (assignableSuffix trace) [] := .assignableSuffix
  have hfatal : (assignableSuffix trace).has Rule.isFatal = false := by cases trace <;> decide
  rw [plainTarget, refuses_pair]
  rcases matches_or_refuses hsource hnests.refersTo hfatal (source.next_le_last i) with
    ⟨k, hassignable⟩ | hnone
  · refine .inr ⟨k, ?_, refuses_token.2 (hassign k hassignable)⟩
    refine matches_nonterminal.2 (matches_named.2 (matches_orElse.2 (.inl ?_)))
    exact matches_andThen.2 ⟨_, matches_literal hsource hkind,
      matches_pair.2 ⟨_, hmany, hassignable⟩⟩
  · refine .inl (refuses_nonterminal.2 (refuses_named.2 (refuses_choice.2 ?_)))
    rw [List.forall_mem_cons, List.forall_mem_cons, List.forall_mem_singleton]
    refine ⟨?_, refuses_of_verdict hsource hne rfl,
      refuses_of_verdict hsource hne (verdict?_literals trace _ hkind).2.2⟩
    exact refuses_andThen.2 (.inr ⟨_, matches_literal hsource hkind,
      refuses_pair.2 (.inr ⟨_, hmany, hnone⟩)⟩)

end AnnotationScan.Grammar
