import AnnotationScan.Proofs.Grammar.Layers

/-!
# Annotations with operator expressions

Every list of operator expressions is recognized as the arguments of an annotation, wherever line
breaks stand in it.
-/

namespace AnnotationScan

open Peg

namespace TokenKind

theorem continuing_mono : ∀ looseness, continuing looseness ⊆ continuing (looseness + 1)
  | 0 => fun _ hkind => hkind
  | _ + 1 => fun _ hkind => List.mem_append_left _ hkind

theorem notMem_continuing_of_row : ∀ n < 10, ∀ operator ∈ (binaryOperators[n]?).getD [],
    operator ∉ continuing (n + 1) := by
  decide

theorem notMem_continuing_of_closing : ∀ looseness ≤ 11, ∀ kind ∈ [comma, rightParen, rightBracket],
    kind ∉ continuing looseness := by
  decide

end TokenKind

namespace Grammar

def OfKind (kind : TokenKind) (lexeme : Lexeme TokenKind) : Prop := lexeme.kind = kind

/-- A production of operands and suffixes or operators is matched up to a token and may go on. -/
def Reaches (source : Source TokenKind) (trace : Bool) : (looseness : Nat) → (i j : Nat) → Prop
  | 0, i, j => ∃ k, Matches source (definitions trace) Nonterminal.primaryExpression.rule false i k ∧
      Rounds source trace (postfixUnarySuffix trace) false k j
  | 1, i, j => Matches source (definitions trace) (layer trace 1) false i j
  | n + 2, i, j => ∃ k, Matches source (definitions trace) (layerOperand trace n) false i k ∧
      Rounds source trace (layerStep trace n) false k j

variable {source : Source TokenKind} {trace : Bool} {start looseness i j k : Nat}

theorem Rounds.le {part : TokenRule} {m : Bool} (h : Rounds source trace part m i j) : i ≤ j := by
  induction h with
  | refl => exact Nat.le_refl _
  | step _ hjk _ ih => exact Nat.le_trans ih (Nat.le_of_lt hjk)

namespace Bare

/-- A production that is matched up to a token ends there if nothing continues it. -/
theorem matches_of_reaches (h : Bare source start) (hi : start ≤ i) (hj : j ≤ source.last)
    (hloose : looseness ≤ 11) (hreaches : Reaches source trace looseness i j) (hij : i ≤ j)
    (hend : (source.lexeme j).kind ∉ TokenKind.continuing looseness) :
    Matches source (definitions trace) (layer trace looseness) false i j := by
  have hstart := Nat.le_trans hi hij
  match looseness, hreaches with
  | 0, ⟨k, hprimary, hrounds⟩ =>
      have hnone : Refuses source (definitions trace) (postfixUnarySuffix trace) false j :=
        h.refuses_suffix hstart hj hend
      exact matches_named.2 (matches_pair.2 ⟨k, hprimary, hrounds.many hnone⟩)
  | 1, hmatches => exact hmatches
  | n + 2, ⟨k, hoperand, hrounds⟩ =>
      have hn : n < TokenKind.binaryOperators.length := by
        simp only [TokenKind.binaryOperators, List.length_cons, List.length_nil]
        omega
      have hrow := List.getElem?_eq_getElem hn
      have hnone : (source.lexeme j).kind ∉ TokenKind.binaryOperators[n] := by
        intro hmem
        refine hend (List.mem_append_right _ ?_)
        rwa [hrow]
      exact (matches_layer (by omega)).2 ⟨k, hoperand, hrounds.many
        (h.refuses_step hstart hrow hnone)⟩

theorem matches_valueArgument (h : Bare source start) (hi : start ≤ i) (hlast : i ≤ source.last)
    (hstar : (source.lexeme i).kind ≠ .star)
    (hexpression : Matches source (definitions trace) Nonterminal.expression.rule false i j) :
    Matches source (definitions trace) (valueArgument trace) false i j := by
  have huse : Refuses source (definitions trace) Nonterminal.annotationUse.rule false i :=
    refuses_annotationUse (h.ne hi (by decide))
  have hname : Refuses source (definitions trace) (Rule.seq [.word, .token .assign]) false i := by
    rw [refuses_pair, refuses_word, or_iff_not_imp_left, Bool.not_eq_false]
    intro hword
    have hassign := h.ne (le_next hi hlast) (show .assign ∈ TokenKind.foreign by decide)
    exact ⟨_, matches_word.2 ⟨hword, rfl⟩, refuses_token.2 hassign⟩
  refine matches_named.2 ?_
  refine matches_andThen.2 ⟨i, matches_optional.2 (.inr ⟨huse, rfl⟩), ?_⟩
  refine matches_andThen.2 ⟨i, matches_optional.2 (.inr ⟨hname, rfl⟩), ?_⟩
  exact matches_pair.2 ⟨i, matches_optional.2 (.inr ⟨refuses_token.2 hstar, rfl⟩), hexpression⟩

theorem matches_signed (h : Bare source start) (hi : start ≤ i) (hlt : i < source.last)
    (hsign : (source.lexeme i).kind ∈ TokenKind.signsInFront)
    (hlayer : Matches source (definitions trace) (layer trace 1) false (i + 1) j) :
    Matches source (definitions trace) (layer trace 1) false i j := by
  have huse : Refuses source (definitions trace) Nonterminal.annotationUse.rule false i :=
    refuses_annotationUse (h.ne hi (by decide))
  have hlabel : Refuses source (definitions trace) label false i :=
    h.refuses_label hi (Nat.le_of_lt hlt)
  have hmem : (source.lexeme i).kind ∈ [.increment, .decrement, .minus, .plus, .bang] :=
    List.mem_append_right [TokenKind.increment, .decrement] hsign
  have hchoice : Matches source (definitions trace) (Rule.choice [Nonterminal.annotationUse.rule,
      label, tokenAmong [.increment, .decrement, .minus, .plus, .bang]]) false i (i + 1) :=
    matches_orElse.2 (.inr ⟨huse, matches_orElse.2 (.inr ⟨hlabel,
      matches_tokenAmong.2 ⟨hmem, (Source.next_of_lt hlt).symm⟩⟩)⟩)
  obtain ⟨k, hsigns, hpostfix⟩ := matches_pair.1 (matches_named.1 hlayer)
  exact matches_named.2 (matches_pair.2
    ⟨k, hchoice.matches_many (Nat.succ_ne_self i) hsigns, hpostfix⟩)

theorem matches_unsigned (h : Bare source start) (hi : start ≤ i) (hlast : i ≤ source.last)
    (hsign : (source.lexeme i).kind ∉ TokenKind.signsInFront)
    (hlayer : Matches source (definitions trace) (layer trace 0) false i j) :
    Matches source (definitions trace) (layer trace 1) false i j := by
  have huse : Refuses source (definitions trace) Nonterminal.annotationUse.rule false i :=
    refuses_annotationUse (h.ne hi (by decide))
  have hlabel : Refuses source (definitions trace) label false i := h.refuses_label hi hlast
  have hincrement := h.ne hi (show .increment ∈ TokenKind.foreign by decide)
  have hdecrement := h.ne hi (show .decrement ∈ TokenKind.foreign by decide)
  have hsigns : Refuses source (definitions trace)
      (tokenAmong [.increment, .decrement, .minus, .plus, .bang]) false i := by
    rw [refuses_tokenAmong, List.mem_cons, List.mem_cons, not_or, not_or]
    exact ⟨hincrement, hdecrement, hsign⟩
  have hchoice : Refuses source (definitions trace) (Rule.choice [Nonterminal.annotationUse.rule,
      label, tokenAmong [.increment, .decrement, .minus, .plus, .bang]]) false i :=
    refuses_orElse.2 ⟨huse, refuses_orElse.2 ⟨hlabel, hsigns⟩⟩
  exact matches_named.2 (matches_pair.2 ⟨i, hchoice.matches_many, hlayer⟩)

/-- Rows in brackets, each of which is an item where a comma or the bracket follows it. -/
theorem matches_enclosed (h : Bare source start) {opening closing : TokenKind} {item : TokenRule}
    {m : Bool} {rows : List (List TokenKind)}
    (hclosing : Bracket.read false [] closing = none) (hcomma : closing ≠ .comma)
    (hnests : Nests false [] item []) (hfatal : item.has Rule.isFatal = false)
    (hitem : ∀ row ∈ rows, ∀ k l, start ≤ k → k ≤ source.last → source.Reads OfKind row k l →
      (source.lexeme l).kind ∈ [.comma, closing] → Matches source (definitions trace) item false k l)
    (hi : start ≤ i) (hreads : source.Reads OfKind
      (opening :: (TokenKind.commaSeparated rows ++ [closing])) i j) :
    Matches source (definitions trace) (Rule.wrapped (.token opening)
      (.newlines false (.optional (commaList item))) (.token closing)) m i j := by
  obtain ⟨hlt, hopening, hreads⟩ := hreads
  obtain ⟨k, hrows, hk, hkind, hj⟩ := Source.reads_append.1 hreads
  obtain rfl : j = k + 1 := hj
  refine matches_wrapped.2 ⟨hopening, k, ?_, hkind, (Source.next_of_lt hk).symm⟩
  rw [Source.next_of_lt hlt]
  by_cases hne : rows = []
  · subst hne
    obtain rfl : k = i + 1 := hrows
    refine matches_optional_closed h.marked (.commaList hnests) ?_ hlt ?_
    · simp [commaList, Rule.seq, Rule.has, Rule.isFatal, hfatal]
    · rw [hkind]
      exact hclosing
  · refine matches_optional.2 (.inl (matches_commaList (fun _ hfits => hfits) hcomma hne
      (fun row hrow k' l hk' => hitem row hrow k' l (by omega)) hrows hlt hkind))

/-- What is asked of the row of an expression of some looseness. -/
def Recognizes (source : Source TokenKind) (trace : Bool) (start looseness : Nat)
    (row : List TokenKind) : Prop :=
  ∀ i j, start ≤ i → i ≤ source.last → source.Reads OfKind row i j →
    (∀ n, looseness = n + 1 → (source.lexeme j).kind ∉ TokenKind.continuing n) →
    Reaches source trace looseness i j

section

variable {row : List TokenKind} {rows : List (List TokenKind)}

theorem Recognizes.matches (hrow : Recognizes source trace start looseness row)
    (h : Bare source start) (hloose : looseness ≤ 11) (hi : start ≤ i) (hlast : i ≤ source.last)
    (hreads : source.Reads OfKind row i j)
    (hend : (source.lexeme j).kind ∉ TokenKind.continuing looseness) :
    Matches source (definitions trace) (layer trace looseness) false i j := by
  have hij : i ≤ j := hreads.length_eq ▸ Nat.le_add_right i _
  refine h.matches_of_reaches hi (hreads.le_last hlast) hloose (hrow i j hi hlast hreads ?_) hij hend
  rintro n rfl hmem
  exact hend (TokenKind.continuing_mono n hmem)

theorem Recognizes.expression (hrow : Recognizes source trace start 11 row)
    (h : Bare source start) (hi : start ≤ i) (hlast : i ≤ source.last)
    (hreads : source.Reads OfKind row i j)
    (hend : (source.lexeme j).kind ∈ [.comma, .rightParen, .rightBracket]) :
    Matches source (definitions trace) Nonterminal.expression.rule false i j :=
  matches_nonterminal.2 (hrow.matches h (Nat.le_refl 11) hi hlast hreads
    (TokenKind.notMem_continuing_of_closing 11 (Nat.le_refl 11) _ hend))

def AllRecognized (source : Source TokenKind) (trace : Bool) (start : Nat)
    (rows : List (List TokenKind)) : Prop :=
  ∀ row ∈ rows, TokenKind.Expression 11 row ∧ Recognizes source trace start 11 row

theorem matches_arguments (h : Bare source start) (hrows : AllRecognized source trace start rows)
    (hi : start ≤ i) {m : Bool} (hreads : source.Reads OfKind
      (.leftParen :: (TokenKind.commaSeparated rows ++ [.rightParen])) i j) :
    Matches source (definitions trace) (valueArguments trace) m i j := by
  refine matches_named.2 (h.matches_enclosed rfl (by decide) (.valueArgument rfl)
    (by cases trace <;> decide) (fun row hrow k l hk hlast hrow' hend => ?_) hi hreads)
  obtain ⟨hexpression, hrecognized⟩ := hrows row hrow
  obtain ⟨kind, rest, rfl, hkind⟩ := hexpression.head
  refine h.matches_valueArgument hk hlast ?_ (hrecognized.expression h hk hlast hrow' ?_)
  · have hfirst : (source.lexeme k).kind = kind := hrow'.2.1
    rw [hfirst]
    rintro rfl
    revert hkind
    decide
  · exact List.mem_append_left [.rightBracket] hend

theorem matches_collectionLiteral (h : Bare source start)
    (hrows : AllRecognized source trace start rows) (hi : start ≤ i) {m : Bool}
    (hreads : source.Reads OfKind
      (.leftBracket :: (TokenKind.commaSeparated rows ++ [.rightBracket])) i j) :
    Matches source (definitions trace) (collectionLiteral trace) m i j := by
  refine matches_named.2 (h.matches_enclosed rfl (by decide) (.expression rfl) rfl
    (fun row hrow k l hk hlast hrow' hend => ?_) hi hreads)
  exact (hrows row hrow).2.expression h hk hlast hrow' (by
    revert hend
    exact (by decide : ∀ kind ∈ [TokenKind.comma, .rightBracket],
      kind ∈ [TokenKind.comma, .rightParen, .rightBracket]) _)

theorem matches_indexing (h : Bare source start) (hne : rows ≠ [])
    (hrows : AllRecognized source trace start rows) (hi : start ≤ i) {m : Bool}
    (hreads : source.Reads OfKind
      (.leftBracket :: (TokenKind.commaSeparated rows ++ [.rightBracket])) i j) :
    Matches source (definitions trace) indexingSuffix m i j := by
  obtain ⟨hlt, hopening, hreads⟩ := hreads
  obtain ⟨k, hlist, hk, hkind, rfl⟩ := Source.reads_append.1 hreads
  refine matches_wrapped.2 ⟨hopening, k, ?_, hkind, (Source.next_of_lt hk).symm⟩
  rw [Source.next_of_lt hlt]
  refine matches_commaList (fun _ hfits => hfits) (by decide) hne
    (fun row hrow k' l hk' hlast hrow' hend => ?_) hlist hlt hkind
  exact (hrows row hrow).2.expression h (by omega) hlast hrow' (by
    revert hend
    exact (by decide : ∀ kind ∈ [TokenKind.comma, .rightBracket],
      kind ∈ [TokenKind.comma, .rightParen, .rightBracket]) _)

end

theorem reaches_suffix (hreaches : Reaches source trace 0 i j) (hjk : j < k)
    (hsuffix : Matches source (definitions trace) (postfixUnarySuffix trace) false j k) :
    Reaches source trace 0 i k := by
  obtain ⟨l, hprimary, hrounds⟩ := hreaches
  exact ⟨l, hprimary, hrounds.step hjk hsuffix⟩

/-- Every expression is recognized up to a token that does not continue it. -/
theorem recognizes (h : Bare source start) {row : List TokenKind}
    (hexpression : TokenKind.Expression looseness row) :
    looseness ≤ 11 → Recognizes source trace start looseness row := by
  -- the invariant stops short of a match: the own layer of a row may still go on with it
  induction hexpression with
  | operand hkind =>
      rintro - i j hi hlast ⟨hlt, hfits, rfl⟩ -
      have hmem : (source.lexeme i).kind ∈ TokenKind.operands := hfits ▸ hkind
      have hprimary : Matches source (definitions trace) Nonterminal.primaryExpression.rule false i
          (source.next i) := h.matches_operand hi hlast hmem
      rw [Source.next_of_lt hlt] at hprimary
      exact ⟨_, hprimary, .refl⟩
  | parenthesized _ ih =>
      rintro - i j hi hlast ⟨hlt, hopening, hreads⟩ -
      obtain ⟨k, hinner, hk, hclosing, rfl⟩ := Source.reads_append.1 hreads
      have hinner := (ih (Nat.le_refl 11)).expression h (by omega) hlt hinner
        (by rw [show (source.lexeme k).kind = _ from hclosing]; decide)
      refine ⟨_, matches_parenthesized (matches_wrapped.2 ⟨hopening, k, ?_, hclosing,
        (Source.next_of_lt hk).symm⟩), .refl⟩
      rwa [Source.next_of_lt hlt]
  | collection hrows ih =>
      rintro - i j hi hlast hreads -
      have hcollection : Matches source (definitions trace) (collectionLiteral trace) false i j :=
        h.matches_collectionLiteral
          (fun row hrow => ⟨hrows row hrow, ih row hrow (Nat.le_refl 11)⟩) hi hreads
      exact ⟨j, h.matches_collection hi hlast hcollection, .refl⟩
  | call _ hrows ihcallee ih =>
      rintro hloose i j hi hlast hreads -
      obtain ⟨k, hcallee, hreads⟩ := Source.reads_append.1 hreads
      have hreaches := ihcallee hloose i k hi hlast hcallee fun _ hn => nomatch hn
      have hik := hcallee.length_eq
      have hkj := hreads.length_eq
      have harguments : Matches source (definitions trace) (valueArguments trace) false k j :=
        h.matches_arguments (fun row hrow => ⟨hrows row hrow, ih row hrow (Nat.le_refl 11)⟩)
          (by omega) hreads
      refine reaches_suffix hreaches (by rw [List.length_cons] at hkj; omega) ?_
      exact h.matches_call (by omega) (hcallee.le_last hlast) harguments
  | index _ hne hrows ihtarget ih =>
      rintro hloose i j hi hlast hreads -
      obtain ⟨k, htarget, hreads⟩ := Source.reads_append.1 hreads
      have hreaches := ihtarget hloose i k hi hlast htarget fun _ hn => nomatch hn
      have hik := htarget.length_eq
      have hkj := hreads.length_eq
      have hindexing : Matches source (definitions trace) indexingSuffix false k j :=
        h.matches_indexing hne (fun row hrow => ⟨hrows row hrow, ih row hrow (Nat.le_refl 11)⟩)
          (by omega) hreads
      refine reaches_suffix hreaches (by rw [List.length_cons] at hkj; omega) ?_
      exact h.matches_index (by omega) (htarget.le_last hlast) hindexing
  | member _ haccess ih =>
      rintro hloose i j hi hlast hreads -
      obtain ⟨k, htarget, hk, hkind, hlt, hname, rfl⟩ := Source.reads_append.1 hreads
      have hreaches := ih hloose i k hi hlast htarget fun _ hn => nomatch hn
      have hik := htarget.length_eq
      have hmem : (source.lexeme k).kind ∈ [.dot, .safeDot] := hkind ▸ haccess
      refine reaches_suffix hreaches (by omega) ?_
      have hmember : Matches source (definitions trace) (postfixUnarySuffix trace) false k
          (source.next (source.next k)) :=
        h.matches_member (by omega) (Nat.le_of_lt hk) hmem (by rw [Source.next_of_lt hk]; exact hname)
      rwa [Source.next_of_lt hk, Source.next_of_lt hlt] at hmember
  | asserted _ ih =>
      rintro hloose i j hi hlast hreads -
      obtain ⟨k, htarget, hk, hkind, rfl⟩ := Source.reads_append.1 hreads
      have hreaches := ih hloose i k hi hlast htarget fun _ hn => nomatch hn
      have hasserted : Matches source (definitions trace) (postfixUnarySuffix trace) false k
          (source.next k) := matches_asserted hkind
      rw [Source.next_of_lt hk] at hasserted
      exact reaches_suffix hreaches (Nat.lt_succ_self k) hasserted
  | signed hsign _ ih =>
      rintro hloose i j hi hlast ⟨hlt, hfits, hreads⟩ hend
      have hmem : (source.lexeme i).kind ∈ TokenKind.signsInFront := hfits ▸ hsign
      exact h.matches_signed hi hlt hmem (ih hloose _ j (by omega) hlt hreads hend)
  | @binary n operators left right operator hrow hoperator _ _ ihleft ihright =>
      rintro hloose i j hi hlast hreads hend
      obtain ⟨k, hleft, hlt, hkind, hright⟩ := Source.reads_append.1 hreads
      have hik := hleft.length_eq
      have hkj := hright.length_eq
      have hmem : (source.lexeme k).kind ∈ operators := hkind ▸ hoperator
      have hown : (source.lexeme k).kind ∉ TokenKind.continuing (n + 1) :=
        TokenKind.notMem_continuing_of_row n (by omega) _ (by rwa [hrow])
      -- the left row ends in front of the operator, as no tighter row goes on with it
      obtain ⟨l, hoperand, hrounds⟩ := ihleft hloose i k hi hlast hleft fun _ hn =>
        Nat.succ.inj hn ▸ hown
      have hbehind := hend (n + 1) rfl
      have hlayer : Matches source (definitions trace) (layer trace (n + 1)) false (k + 1) j :=
        Recognizes.matches (ihright (by omega)) h (by omega) (by omega) hlt hright hbehind
      have hlast' : k + 1 ≤ source.last := hlt
      have hoperand' := h.matches_layerOperand (by omega) hlast' hlayer hbehind
      rw [← Source.next_of_lt hlt] at hoperand'
      exact ⟨l, hoperand, hrounds.step (by omega) (h.matches_step hrow hmem hoperand')⟩
  | @looser looseness row hexpression hlt ih =>
      rintro hloose i j hi hlast hreads hend
      have hlayer := Recognizes.matches (ih (by omega)) h (by omega) hi hlast hreads
        (hend looseness rfl)
      match looseness with
      | 0 =>
          obtain ⟨kind, rest, rfl, hkind⟩ := hexpression.head
          refine h.matches_unsigned hi hlast ?_ hlayer
          rw [show (source.lexeme i).kind = kind from hreads.2.1]
          have hfirst := hkind.resolve_right fun hsign => Nat.lt_irrefl 0 hsign.1
          revert hfirst
          exact (by decide : ∀ kind ∈ TokenKind.leftParen :: .leftBracket :: TokenKind.operands,
            kind ∉ TokenKind.signsInFront) kind
      | n + 1 => exact ⟨j, h.matches_layerOperand hi hlast hlayer (hend (n + 1) rfl), .refl⟩

end Bare

theorem matches_userType_of_leftParen (hname : (source.lexeme i).isWord = true)
    (hlt : i < source.last) (hparen : (source.lexeme (i + 1)).kind = .leftParen) :
    Matches source (definitions trace) (userType trace) m i (i + 1) := by
  have htypes : Refuses source (definitions trace) (typeArguments trace) m (i + 1) :=
    refuses_typeArguments (by rw [hparen]; decide)
  have hsimple : Matches source (definitions trace) (simpleUserType trace) m i (i + 1) :=
    matches_named.2 (matches_pair.2 ⟨i + 1, matches_word.2 ⟨hname, (Source.next_of_lt hlt).symm⟩,
      matches_optional.2 (.inr ⟨htypes, rfl⟩)⟩)
  have hdot : Refuses source (definitions trace) (Rule.seq [.token .dot, simpleUserType trace]) m
      (i + 1) := refuses_seq (refuses_token.2 (by rw [hparen]; decide))
  exact matches_named.2 (matches_pair.2 ⟨i + 1, hsimple, hdot.matches_many⟩)

theorem matches_invocation (hname : (source.lexeme i).isWord = true)
    (hlt : i < source.last) (hparen : (source.lexeme (i + 1)).kind = .leftParen)
    (hline : (source.lexeme (i + 1)).newlineBefore = false)
    (harguments : Matches source (definitions trace) (valueArguments trace) true (i + 1) j) :
    Matches source (definitions trace) (annotationUnescaped trace) true i j := by
  refine matches_named.2 (matches_orElse.2 (.inl (matches_named.2 (matches_pair.2
    ⟨i + 1, matches_userType_of_leftParen hname hlt hparen,
      matches_onSameLine.2 ⟨?_, harguments⟩⟩))))
  rw [hline, Bool.and_false]

end Grammar

namespace TokenList

variable {list : TokenList}

theorem isWord_toSource (list : TokenList) (i : Nat) :
    (list.toSource.lexeme i).isWord = ((list.toSource.lexeme i).kind == .identifier) := by
  by_cases hi : i < list.toSource.body.size
  · have hbody : list.toSource.lexeme i = list.toSource.body[i] := by
      rw [Source.lexeme, Array.getD, dif_pos hi]
      rfl
    rw [hbody]
    simp [toSource]
  · rw [Source.lexeme_of_last_le _ (Nat.le_of_not_lt hi)]
    rfl

theorem marked_of_kinds {kinds : List TokenKind}
    (h : list.tokens.toList.map (·.kind) = kinds ++ [.endOfInput]) : list.toSource.Marked := by
  obtain ⟨front, last, htokens, -, hlast⟩ := List.map_eq_append_iff.1 h
  obtain ⟨stop, rfl, hkind⟩ := List.map_eq_singleton_iff.1 hlast
  suffices hback : list.tokens.back? = some stop from marked_of_back? hback hkind
  rw [← Array.getLast?_toList, htokens, List.getLast?_concat]

theorem kind_toSource {kinds : List TokenKind} (h : list.tokens.toList.map (·.kind) = kinds)
    {i : Nat} (hi : i < kinds.length) : (list.toSource.lexeme i).kind = kinds[i] := by
  subst h
  have hsize : i < list.tokens.size := by simpa using hi
  rw [list.lexeme_toSource (Array.getElem?_eq_getElem hsize)]
  simp [lexemeOf]

theorem reads_of_kinds {front row back : List TokenKind}
    (h : list.tokens.toList.map (·.kind) = front ++ (row ++ back)) (hback : back ≠ []) :
    list.toSource.Reads Grammar.OfKind row front.length (front.length + row.length) := by
  have hpos := List.length_pos_iff.2 hback
  have hlength := congrArg List.length h
  simp only [List.length_map, Array.length_toList, List.length_append] at hlength
  refine Source.reads_of_forall (by rw [last_toSource]; omega) fun n hn => ?_
  change (list.toSource.lexeme (front.length + n)).kind = row[n]
  rw [kind_toSource h (by simp; omega), List.getElem_append_right (Nat.le_add_right _ _)]
  simp [List.getElem_append_left hn]

end TokenList

namespace Recognizer

/-- A list of operator expressions is recognized as the arguments of an annotation. -/
theorem recognizeAt_arguments (settings : Settings) (list : TokenList)
    (rows : List (List TokenKind)) (hrows : ∀ row ∈ rows, TokenKind.Expression 11 row)
    (hkinds : list.tokens.toList.map (·.kind) = .atSign :: .identifier :: .leftParen ::
      (TokenKind.commaSeparated rows ++ [.rightParen, .endOfInput]))
    (hline : ∀ paren, list.get? 2 = some paren → paren.before.lineFeed = false)
    (hdepth : 3 * (list.size - 1) ≤ settings.maxDepth) :
    (build settings).recognizeAt list 0 =
      .ok ⟨list.toSource.spanFrom 0 (list.size - 1), list.size - 1⟩ := by
  have hsplit : list.tokens.toList.map (·.kind) = [.atSign, .identifier] ++
      (.leftParen :: (TokenKind.commaSeparated rows ++ [.rightParen]) ++ [.endOfInput]) := by
    simpa using hkinds
  have hlast : list.toSource.last = list.size - 1 := list.last_toSource
  have hsize : list.size - 1 =
      2 + (TokenKind.leftParen :: (TokenKind.commaSeparated rows ++ [.rightParen])).length := by
    have hlength := congrArg List.length hsplit
    simp only [List.length_map, Array.length_toList, List.length_append, List.length_cons,
      List.length_nil] at hlength ⊢
    rw [TokenList.size, hlength]
    omega
  have hreads := TokenList.reads_of_kinds hsplit (by simp)
  change list.toSource.Reads _ _ 2 (2 + _) at hreads
  rw [← hsize] at hreads
  have hmarked : list.toSource.Marked := by
    rw [← List.append_assoc] at hsplit
    exact TokenList.marked_of_kinds hsplit
  have hkind := fun i hi => TokenList.kind_toSource hkinds (i := i) hi
  have habsent : ∀ kind ∈ TokenKind.identifier :: .leftParen ::
      (TokenKind.commaSeparated rows ++ [.rightParen, .endOfInput]), kind ∉ TokenKind.foreign := by
    have hrows := TokenKind.notMem_foreign_commaSeparated fun row hrow =>
      (hrows row hrow).notMem_foreign
    simpa [or_imp, forall_and] using ⟨by decide, by decide, hrows, by decide, by decide⟩
  have hbare : Grammar.Bare list.toSource 1 := by
    refine ⟨hmarked, fun i hi => ?_, fun i hi => ?_⟩
    · rw [TokenList.isWord_toSource, hi]
      rfl
    · by_cases hlt : i < list.toSource.last
      · rw [hkind i (by simp at hsize ⊢; omega)]
        obtain ⟨k, rfl⟩ := Nat.exists_eq_add_of_le' hi
        exact habsent _ (List.getElem_mem _)
      · rw [Source.lexeme_of_last_le _ (Nat.le_of_not_lt hlt), hmarked.marker]
        decide
  have hrecognized : Grammar.Bare.AllRecognized list.toSource settings.traceRules 1 rows :=
    fun row hrow => ⟨hrows row hrow, hbare.recognizes (hrows row hrow) (Nat.le_refl 11)⟩
  have harguments : Matches list.toSource (Grammar.definitions settings.traceRules)
      (Grammar.valueArguments settings.traceRules) true 2 (list.size - 1) :=
    hbare.matches_arguments hrecognized (by omega) hreads
  have hparen : 2 < list.size := by
    rw [List.length_cons] at hsize
    omega
  have hunescaped : Matches list.toSource (Grammar.definitions settings.traceRules)
      (Grammar.annotationUnescaped settings.traceRules) true 1 (list.size - 1) := by
    refine Grammar.matches_invocation (hbare.isWord 1 (hkind 1 (by simp))) (by omega)
      (hkind 2 (by simp)) ?_ harguments
    have hget : list.tokens[2]? = some list.tokens[2] := Array.getElem?_eq_getElem hparen
    rw [list.lexeme_toSource hget]
    exact hline _ hget
  have hnext : list.toSource.next 0 = 1 ∧ list.toSource.next 1 = 2 :=
    ⟨Source.next_of_lt (by omega), Source.next_of_lt (by omega)⟩
  have hentry : Matches list.toSource (Grammar.definitions settings.traceRules)
      (Grammar.plainEntry settings.traceRules) true 0 (list.size - 1) := by
    apply Grammar.matches_plainEntry (hkind 0 (by simp))
    · rw [hnext.1, hnext.2, hkind 2 (by simp)]
      exact (by decide : TokenKind.leftParen ≠ .colon)
    · rwa [hnext.1]
  exact recognizeAt_eq_ok_iff.2 (matchAt_of_matches hmarked (hlast ▸ hdepth) hentry)

/-- The tokens of an annotation with two arguments, the first of them on two lines. -/
def twoArguments : TokenList :=
  ⟨"@A(-b\n*(c+d), e[f])", #[⟨.atSign, ⟨0, 1⟩, .empty⟩, ⟨.identifier, ⟨1, 2⟩, .empty⟩,
    ⟨.leftParen, ⟨2, 3⟩, .empty⟩, ⟨.minus, ⟨3, 4⟩, .empty⟩, ⟨.identifier, ⟨4, 5⟩, .empty⟩,
    ⟨.star, ⟨6, 7⟩, ⟨false, true, false⟩⟩, ⟨.leftParen, ⟨7, 8⟩, .empty⟩,
    ⟨.identifier, ⟨8, 9⟩, .empty⟩, ⟨.plus, ⟨9, 10⟩, .empty⟩, ⟨.identifier, ⟨10, 11⟩, .empty⟩,
    ⟨.rightParen, ⟨11, 12⟩, .empty⟩, ⟨.comma, ⟨12, 13⟩, .empty⟩,
    ⟨.identifier, ⟨14, 15⟩, ⟨true, false, false⟩⟩, ⟨.leftBracket, ⟨15, 16⟩, .empty⟩,
    ⟨.identifier, ⟨16, 17⟩, .empty⟩, ⟨.rightBracket, ⟨17, 18⟩, .empty⟩,
    ⟨.rightParen, ⟨18, 19⟩, .empty⟩, ⟨.endOfInput, ⟨19, 19⟩, .empty⟩]⟩

theorem recognizeAt_arguments_twoArguments :
    (build {}).recognizeAt twoArguments 0 = .ok ⟨twoArguments.toSource.spanFrom 0 17, 17⟩ ∧
      twoArguments.toSource.spanFrom 0 17 = ⟨0, 19⟩ := by
  have hname : TokenKind.Expression 0 [.identifier] := .operand (by decide)
  have hsum : TokenKind.Expression 3 ([.identifier] ++ [.plus, .identifier]) :=
    .binary (n := 1) rfl (by decide) (hname.mono (by decide) (by decide))
      (hname.mono (by decide) (by decide))
  have hparens : TokenKind.Expression 1 (.leftParen :: ([.identifier, .plus, .identifier] ++
      [.rightParen])) := .looser (.parenthesized (hsum.mono (by decide) (by decide))) (by decide)
  have hnegated : TokenKind.Expression 1 [.minus, .identifier] :=
    .signed (by decide) (hname.mono (by decide) (by decide))
  have hproduct : TokenKind.Expression 2 ([.minus, .identifier] ++ .star ::
      (.leftParen :: ([.identifier, .plus, .identifier] ++ [.rightParen]))) :=
    .binary (n := 0) rfl (by decide) (hnegated.mono (by decide) (by decide)) hparens
  have hindexed : TokenKind.Expression 0 ([.identifier] ++ .leftBracket ::
      (TokenKind.commaSeparated [[.identifier]] ++ [.rightBracket])) :=
    .index hname (by decide) (by simpa using hname.mono (by decide) (by decide))
  have hrows : ∀ row ∈ [[.minus, .identifier] ++ .star ::
      (.leftParen :: ([.identifier, .plus, .identifier] ++ [.rightParen])),
      [.identifier] ++ .leftBracket ::
        (TokenKind.commaSeparated [[.identifier]] ++ [.rightBracket])],
      TokenKind.Expression 11 row := by
    simpa using ⟨hproduct.mono (by decide) (by decide), hindexed.mono (by decide) (by decide)⟩
  exact ⟨recognizeAt_arguments {} twoArguments _ hrows rfl (by decide) (by decide), by decide +kernel⟩

end Recognizer
end AnnotationScan
