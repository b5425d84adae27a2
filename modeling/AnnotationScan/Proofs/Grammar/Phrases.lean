import AnnotationScan.Proofs.Types

/-!
# How types are matched

The five forms of a type are tried one after the other, and three of them begin with the same user
type or the same parentheses.  Whatever is tried at the start of a type ends at one token if it
matches at all, so that the token there decides between the forms.
-/

namespace AnnotationScan.Grammar

open Peg

variable {source : Source TokenKind} {trace m : Bool} {rule part first second : TokenRule}
  {rest : List TokenRule} {i j k b : Nat}

/-! ## Modifiers -/

structure Unmodified (source : Source TokenKind) (i : Nat) : Prop where
  notAt : (source.lexeme i).kind ≠ .atSign
  notIn : (source.lexeme i).kind ≠ .inKeyword
  notSoft : (source.lexeme i).isWord = true → (source.lexeme i).text ∉ softKeywords

theorem matches_skip (h : Refuses source (definitions trace) part m i)
    (hrest : Matches source (definitions trace) (Rule.seq rest) m i j) :
    Matches source (definitions trace) (Rule.seq (.optional part :: rest)) m i j :=
  matches_andThen.2 ⟨i, matches_optional.2 (.inr ⟨h, rfl⟩), hrest⟩

theorem refuses_skip (h : Refuses source (definitions trace) part m i)
    (hrest : Refuses source (definitions trace) (Rule.seq rest) m i) :
    Refuses source (definitions trace) (Rule.seq (.optional part :: rest)) m i :=
  refuses_andThen.2 (.inr ⟨i, matches_optional.2 (.inr ⟨h, rfl⟩), hrest⟩)

theorem Unmodified.refuses_keyword (h : Unmodified source i) {text : String}
    (htext : text ∈ softKeywords) : Refuses source (definitions trace) (.keyword text) m i := by
  refine Peg.refuses_keyword.2 fun hword => h.notSoft hword.1 ?_
  rw [hword.2]
  exact htext

theorem Unmodified.refuses_modifiers (h : Unmodified source i) :
    Refuses source (definitions trace) typeModifiers m i :=
  refuses_seq (refuses_orElse.2 ⟨refuses_annotationUse h.notAt, h.refuses_keyword (by decide)⟩)

theorem Unmodified.refuses_variance (h : Unmodified source i) :
    Refuses source (definitions trace)
      (Rule.choice [varianceModifier, Nonterminal.annotationUse.rule]) m i :=
  refuses_orElse.2 ⟨refuses_orElse.2 ⟨refuses_token.2 h.notIn, h.refuses_keyword (by decide)⟩,
    refuses_annotationUse h.notAt⟩

/-! ## What the start of a type is taken for -/

/-- The rule ends at a token if it matches. -/
def EndsAt (source : Source TokenKind) (trace : Bool) (rule : TokenRule) (m : Bool) (i j : Nat) :
    Prop :=
  Matches source (definitions trace) rule m i j ∨ Refuses source (definitions trace) rule m i

theorem EndsAt.orElse (h : EndsAt source trace first m i j) (h' : EndsAt source trace second m i j) :
    EndsAt source trace (.orElse first second) m i j := by
  rcases h with hmatches | hrefuses
  · exact .inl (matches_orElse.2 (.inl hmatches))
  · exact h'.imp (fun hmatches => matches_orElse.2 (.inr ⟨hrefuses, hmatches⟩))
      fun hnone => refuses_orElse.2 ⟨hrefuses, hnone⟩

theorem EndsAt.refuses_seq (h : EndsAt source trace first m i j)
    (hrest : Refuses source (definitions trace) (Rule.seq rest) m j) :
    Refuses source (definitions trace) (Rule.seq (first :: rest)) m i :=
  refuses_andThen.2 (h.symm.imp id fun hmatches => ⟨j, hmatches, hrest⟩)

theorem EndsAt.named {name : String} (h : EndsAt source trace part m i j) :
    EndsAt source trace (named trace name part) m i j :=
  h.imp matches_named.2 refuses_named.2

theorem EndsAt.modified (h : EndsAt source trace part m i j) (hmodifiers : Unmodified source i) :
    EndsAt source trace (Rule.seq [.optional typeModifiers, part]) m i j :=
  h.imp (fun hpart => matches_skip hmodifiers.refuses_modifiers
      (matches_andThen.2 ⟨j, hpart, matches_nothing.2 rfl⟩))
    fun hpart => refuses_skip hmodifiers.refuses_modifiers (Grammar.refuses_seq hpart)

/-- What begins a type ends at a token if it matches. -/
structure Base (source : Source TokenKind) (trace m : Bool) (i b : Nat) : Prop where
  reference : EndsAt source trace (typeReference trace) m i b
  parenthesized : EndsAt source trace parenthesizedType m i b
  parameters : EndsAt source trace functionTypeParameters m i b
  operand : EndsAt source trace
    (Rule.choice [userType trace, Nonterminal.parenthesizedUserType.rule]) m i b

theorem isWord_of_userType (h : Matches source (definitions trace) (userType trace) m i j) :
    (source.lexeme i).isWord = true := by
  obtain ⟨k, hsimple, -⟩ := matches_pair.1 (matches_named.1 h)
  obtain ⟨l, hword, -⟩ := matches_pair.1 (matches_named.1 hsimple)
  exact (matches_word.1 hword).1

theorem refuses_userType (h : (source.lexeme i).isWord = false) :
    Refuses source (definitions trace) (userType trace) m i :=
  refuses_named.2 (refuses_seq (refuses_named.2 (refuses_seq (refuses_word.2 h))))

theorem refuses_typeReference (h : (source.lexeme i).isWord = false) :
    Refuses source (definitions trace) (typeReference trace) m i := by
  refine refuses_orElse.2 ⟨refuses_userType h, refuses_keyword.2 fun hword => ?_⟩
  rw [h] at hword
  cases hword.1

theorem refuses_inParens (h : (source.lexeme i).kind ≠ .leftParen) :
    Refuses source (definitions trace) (inParens part) m i := refuses_wrapped h

theorem isWord_of_inParens (hsource : source.Marked)
    (h : Matches source (definitions trace) (inParens part) m i j) :
    (source.lexeme i).isWord = false := by
  refine Bool.eq_false_iff.2 fun hword => ?_
  have hfalse := hsource.word i hword
  rw [(matches_wrapped.1 h).1] at hfalse
  cases hfalse

theorem refuses_inParens_of_userType (hsource : source.Marked)
    (h : Matches source (definitions trace) (userType trace) m i j) :
    Refuses source (definitions trace) (inParens part) m i := by
  apply refuses_inParens
  rw [hsource.word i (isWord_of_userType h)]
  decide

theorem closing_unique (hsource : source.Marked) (hi : i ≤ source.last)
    (hfirst : Nests false [] first []) (hsecond : Nests false [] second [])
    {m' : Bool} (h : Matches source (definitions trace) first m i j)
    (h' : Matches source (definitions trace) second m' i k)
    (hj : (source.lexeme j).kind = .rightParen) (hk : (source.lexeme k).kind = .rightParen) :
    j = k := by
  obtain ⟨d, v, hd⟩ := id h
  obtain ⟨e, w, he⟩ := id h'
  have hnesting := hfirst.nesting hsource hd hi j rfl
  have hnesting' := hsecond.nesting hsource he hi k rfl
  have hij := (h.bounds hi).1
  have hik := (h'.bounds hi).1
  have hle := Source.nesting_le hnesting (by rw [Nat.add_sub_cancel' hij, hj]; rfl) hnesting'
  have hle' := Source.nesting_le hnesting' (by rw [Nat.add_sub_cancel' hik, hk]; rfl) hnesting
  omega

theorem EndsAt.inParens (hsource : source.Marked) (hi : i ≤ source.last)
    (hfirst : Nests false [] first []) (hsecond : ∀ before, Nests false before second before)
    (hfatal : (Grammar.inParens second).has Rule.isFatal = false)
    (h : Matches source (definitions trace) (Grammar.inParens first) m i b) :
    EndsAt source trace (Grammar.inParens second) m i b := by
  have hnests : Nests false [] (Grammar.inParens second) [] := .inParens (hsecond _)
  have hdecided : (∃ k, Matches source (definitions trace) (Grammar.inParens second) m i k) ∨
      Refuses source (definitions trace) (Grammar.inParens second) m i :=
    matches_or_refuses hsource hnests.refersTo hfatal hi
  rcases hdecided with ⟨k, hk⟩ | hnone
  · obtain ⟨-, l, hl, hclosing, rfl⟩ := matches_wrapped.1 hk
    obtain ⟨-, l', hl', hclosing', rfl⟩ := matches_wrapped.1 h
    have hsame := closing_unique hsource (source.next_le_last i) (hsecond []) hfirst hl hl' hclosing
      hclosing'
    exact .inl (hsame ▸ hk)
  · exact .inr hnone

namespace Base

theorem of_userType (hsource : source.Marked)
    (h : Matches source (definitions trace) (userType trace) m i b) : Base source trace m i b := by
  exact ⟨.inl (matches_orElse.2 (.inl h)), .inr (refuses_inParens_of_userType hsource h),
    .inr (refuses_inParens_of_userType hsource h), .inl (matches_orElse.2 (.inl h))⟩

theorem of_inParens (hsource : source.Marked) (hi : i ≤ source.last)
    (hnests : Nests false [] part [])
    (h : Matches source (definitions trace) (inParens part) m i b) : Base source trace m i b := by
  have hword := isWord_of_inParens hsource h
  have htypes : ∀ before, Nests false before (userType trace) before := fun _ => .userType
  refine ⟨.inr (refuses_typeReference hword), ?_, ?_, ?_⟩
  · exact .inParens hsource hi hnests (fun _ => .type) (by decide) h
  · refine .inParens hsource hi hnests (fun _ => ?_) (by decide) h
    exact .optional (.commaList (.orElse (.andThen .word (.andThen (.plain rfl)
      (.andThen .type .nothing))) .type))
  · refine EndsAt.orElse (.inr (refuses_userType hword)) ?_
    have hends : EndsAt source trace (parenthesizedUserTypeBody trace) m i b := by
      refine .inParens hsource hi hnests (fun _ => .orElse .userType (.ref rfl (.inl rfl))) ?_ h
      cases trace <;> decide
    exact hends.imp matches_nonterminal.2 refuses_nonterminal.2

variable (h : Base source trace m i b)

include h

theorem refuses_nullable (hkind : (source.lexeme b).kind ≠ .question) :
    Refuses source (definitions trace) (nullableType trace) m i :=
  (h.reference.orElse h.parenthesized).refuses_seq (refuses_seq (refuses_seq (refuses_token.2 hkind)))

theorem receiver (hmodifiers : Unmodified source i) (hkind : (source.lexeme b).kind ≠ .question) :
    EndsAt source trace (receiverType trace) m i b :=
  ((EndsAt.orElse (.inr (h.refuses_nullable hkind))
    (h.parenthesized.orElse h.reference)).modified hmodifiers).named

theorem refuses_receiver (hmodifiers : Unmodified source i)
    (hquestion : (source.lexeme b).kind ≠ .question) (hdot : (source.lexeme b).kind ≠ .dot) :
    Refuses source (definitions trace) (Rule.seq [receiverType trace, .token .dot]) m i :=
  (h.receiver hmodifiers hquestion).refuses_seq (refuses_seq (refuses_token.2 hdot))

theorem refuses_arrow (hkind : (source.lexeme b).kind ≠ .arrow) :
    Refuses source (definitions trace)
      (Rule.seq [functionTypeParameters, .token .arrow, Nonterminal.type.rule]) m i :=
  h.parameters.refuses_seq (refuses_seq (refuses_token.2 hkind))

theorem refuses_function (hmodifiers : Unmodified source i)
    (hkind : (source.lexeme b).kind ∉ [.question, .dot, .arrow]) :
    Refuses source (definitions trace) (functionType trace) m i := by
  simp only [List.mem_cons, List.not_mem_nil, or_false, not_or] at hkind
  exact refuses_named.2 (refuses_skip (h.refuses_receiver hmodifiers hkind.1 hkind.2.1)
    (h.refuses_arrow hkind.2.2))

theorem refuses_definitelyNonNullable (hmodifiers : Unmodified source i)
    (hkind : (source.lexeme b).kind ≠ .ampersand) :
    Refuses source (definitions trace) (definitelyNonNullableType trace) m i :=
  refuses_skip hmodifiers.refuses_modifiers
    (h.operand.refuses_seq (refuses_seq (refuses_token.2 hkind)))

end Base

/-! ## Types -/

def typeEnds : List TokenKind := [.comma, .greater, .rightParen]

theorem matches_type_of_choice (hmodifiers : Unmodified source i)
    (h : Matches source (definitions trace) (Rule.choice [functionType trace,
      definitelyNonNullableType trace, nullableType trace, parenthesizedType, typeReference trace])
      m i j) : Matches source (definitions trace) Nonterminal.type.rule m i j :=
  matches_nonterminal.2 (matches_named.2 (matches_skip hmodifiers.refuses_modifiers
    (matches_andThen.2 ⟨j, h, matches_nothing.2 rfl⟩)))

theorem matches_type_of_userType (hsource : source.Marked) (hmodifiers : Unmodified source i)
    (h : Matches source (definitions trace) (userType trace) m i j)
    (hkind : (source.lexeme j).kind ∉ [.question, .dot, .arrow, .ampersand]) :
    Matches source (definitions trace) Nonterminal.type.rule m i j := by
  have hbase := Base.of_userType hsource h
  simp only [List.mem_cons, List.not_mem_nil, or_false, not_or] at hkind
  apply matches_type_of_choice hmodifiers
  refine matches_orElse.2 (.inr ⟨hbase.refuses_function hmodifiers (by simp [hkind]), ?_⟩)
  refine matches_orElse.2 (.inr ⟨hbase.refuses_definitelyNonNullable hmodifiers hkind.2.2.2, ?_⟩)
  refine matches_orElse.2 (.inr ⟨hbase.refuses_nullable hkind.1, ?_⟩)
  exact matches_orElse.2 (.inr
    ⟨refuses_inParens_of_userType hsource h, matches_orElse.2 (.inl h)⟩)

theorem matches_type_of_parenthesized (hsource : source.Marked) (hi : i ≤ source.last)
    (hmodifiers : Unmodified source i)
    (h : Matches source (definitions trace) parenthesizedType m i j)
    (hkind : (source.lexeme j).kind ∉ [.question, .dot, .arrow, .ampersand]) :
    Matches source (definitions trace) Nonterminal.type.rule m i j := by
  have hbase : Base source trace m i j := .of_inParens hsource hi .type h
  simp only [List.mem_cons, List.not_mem_nil, or_false, not_or] at hkind
  apply matches_type_of_choice hmodifiers
  refine matches_orElse.2 (.inr ⟨hbase.refuses_function hmodifiers (by simp [hkind]), ?_⟩)
  refine matches_orElse.2 (.inr ⟨hbase.refuses_definitelyNonNullable hmodifiers hkind.2.2.2, ?_⟩)
  exact matches_orElse.2 (.inr ⟨hbase.refuses_nullable hkind.1, matches_orElse.2 (.inl h)⟩)

/-- A nullable type has question marks behind what begins it. -/
theorem Base.of_nullable (hsource : source.Marked) (hi : i ≤ source.last)
    (hmodifiers : Unmodified source i)
    (h : Matches source (definitions trace) (nullableType trace) m i j) :
    ∃ b, Base source trace m i b ∧ (source.lexeme b).kind = .question := by
  obtain ⟨b, hstart, hquestions⟩ := matches_pair.1 h
  obtain ⟨k, hquestion, -⟩ := matches_pair.1 hquestions
  refine ⟨b, ?_, (matches_token.1 hquestion).1⟩
  rcases matches_orElse.1 hstart with hreference | ⟨-, hparens⟩
  · rcases matches_orElse.1 hreference with htype | ⟨-, hdynamic⟩
    · exact .of_userType hsource htype
    · have hnone : Refuses source (definitions trace) (.keyword "dynamic") m i :=
        hmodifiers.refuses_keyword (by decide)
      exact absurd hnone (hdynamic.not_refuses hi)
  · exact .of_inParens hsource hi .type hparens

theorem matches_type_of_nullable (hsource : source.Marked) (hi : i ≤ source.last)
    (hmodifiers : Unmodified source i)
    (h : Matches source (definitions trace) (nullableType trace) m i j)
    (hkind : (source.lexeme j).kind ≠ .dot) :
    Matches source (definitions trace) Nonterminal.type.rule m i j := by
  obtain ⟨b, hbase, hquestion⟩ := Base.of_nullable hsource hi hmodifiers h
  have hreceiver : Refuses source (definitions trace)
      (Rule.seq [receiverType trace, .token .dot]) m i := by
    have hchoice : EndsAt source trace (Rule.choice [nullableType trace, parenthesizedType,
        typeReference trace]) m i j := .inl (matches_orElse.2 (.inl h))
    have hends : EndsAt source trace (receiverType trace) m i j :=
      (hchoice.modified hmodifiers).named
    exact hends.refuses_seq (refuses_seq (refuses_token.2 hkind))
  have hfunction : Refuses source (definitions trace) (functionType trace) m i :=
    refuses_named.2 (refuses_skip hreceiver (hbase.refuses_arrow (by rw [hquestion]; decide)))
  have hdefinitely := hbase.refuses_definitelyNonNullable hmodifiers (by rw [hquestion]; decide)
  apply matches_type_of_choice hmodifiers
  refine matches_orElse.2 (.inr ⟨hfunction, matches_orElse.2 (.inr ⟨hdefinitely, ?_⟩)⟩)
  exact matches_orElse.2 (.inl h)

theorem matches_type_of_function (hsource : source.Marked) (hi : i ≤ source.last)
    (hmodifiers : Unmodified source i)
    (h : Matches source (definitions trace)
      (Rule.seq [functionTypeParameters, .token .arrow, Nonterminal.type.rule]) m i j) :
    Matches source (definitions trace) Nonterminal.type.rule m i j := by
  obtain ⟨b, hparameters, hrest⟩ := matches_andThen.1 h
  obtain ⟨k, harrow, -⟩ := matches_andThen.1 hrest
  have hkind := (matches_token.1 harrow).1
  have hbase : Base source trace m i b := .of_inParens hsource hi (.optional (.commaList
    (.orElse (.andThen .word (.andThen (.plain rfl) (.andThen .type .nothing))) .type))) hparameters
  have hreceiver := hbase.refuses_receiver hmodifiers (by rw [hkind]; decide) (by rw [hkind]; decide)
  exact matches_type_of_choice hmodifiers (matches_orElse.2 (.inl (matches_named.2
    (matches_skip hreceiver h))))

theorem matches_type_of_extension (hmodifiers : Unmodified source i)
    (hreceiver : Matches source (definitions trace)
      (Rule.choice [nullableType trace, parenthesizedType, typeReference trace]) m i k)
    (hdot : (source.lexeme k).kind = .dot)
    (h : Matches source (definitions trace)
      (Rule.seq [functionTypeParameters, .token .arrow, Nonterminal.type.rule]) m (source.next k) j) :
    Matches source (definitions trace) Nonterminal.type.rule m i j := by
  have hmodified : Matches source (definitions trace) (receiverType trace) m i k :=
    matches_named.2 (matches_skip hmodifiers.refuses_modifiers
      (matches_andThen.2 ⟨k, hreceiver, matches_nothing.2 rfl⟩))
  have hfront : Matches source (definitions trace) (Rule.seq [receiverType trace, .token .dot]) m i
      (source.next k) := matches_pair.2 ⟨k, hmodified, matches_token.2 ⟨hdot, rfl⟩⟩
  exact matches_type_of_choice hmodifiers (matches_orElse.2 (.inl (matches_named.2
    (matches_andThen.2 ⟨source.next k, matches_optional.2 (.inl hfront), h⟩))))

theorem matches_type_of_intersection (hsource : source.Marked) (hmodifiers : Unmodified source i)
    (hleft : Matches source (definitions trace) (userType trace) m i k)
    (hampersand : (source.lexeme k).kind = .ampersand)
    (hmodifiers' : Unmodified source (source.next k))
    (hright : Matches source (definitions trace) (userType trace) m (source.next k) j) :
    Matches source (definitions trace) Nonterminal.type.rule m i j := by
  have hbase := Base.of_userType hsource hleft
  have hfunction := hbase.refuses_function hmodifiers (by rw [hampersand]; decide)
  have hoperands : Matches source (definitions trace) (definitelyNonNullableType trace) m i j := by
    refine matches_skip hmodifiers.refuses_modifiers (matches_andThen.2
      ⟨k, matches_orElse.2 (.inl hleft), matches_andThen.2 ⟨source.next k,
        matches_token.2 ⟨hampersand, rfl⟩, ?_⟩⟩)
    exact matches_skip hmodifiers'.refuses_modifiers (matches_andThen.2
      ⟨j, matches_orElse.2 (.inl hright), matches_nothing.2 rfl⟩)
  exact matches_type_of_choice hmodifiers (matches_orElse.2 (.inr
    ⟨hfunction, matches_orElse.2 (.inl hoperands)⟩))

theorem refuses_type (hsource : source.Marked) (hmodifiers : Unmodified source i)
    (hword : (source.lexeme i).isWord = false) (hparen : (source.lexeme i).kind ≠ .leftParen) :
    Refuses source (definitions trace) Nonterminal.type.rule m i := by
  have hoperand : Refuses source (definitions trace) Nonterminal.parenthesizedUserType.rule m i :=
    refuses_nonterminal.2 (refuses_inParens hparen)
  have hbase : Base source trace m i source.last :=
    ⟨.inr (refuses_typeReference hword), .inr (refuses_inParens hparen),
      .inr (refuses_inParens hparen), .inr (refuses_orElse.2 ⟨refuses_userType hword, hoperand⟩)⟩
  have hend : (source.lexeme source.last).kind = .endOfInput := by
    rw [source.lexeme_of_last_le (Nat.le_refl _), hsource.marker]
  refine refuses_nonterminal.2 (refuses_named.2 (refuses_skip hmodifiers.refuses_modifiers
    (refuses_seq (refuses_choice.2 ?_))))
  simp only [List.forall_mem_cons, List.not_mem_nil, false_imp_iff, implies_true, and_true]
  exact ⟨hbase.refuses_function hmodifiers (by rw [hend]; decide),
    hbase.refuses_definitelyNonNullable hmodifiers (by rw [hend]; decide),
    hbase.refuses_nullable (by rw [hend]; decide), refuses_inParens hparen,
    refuses_typeReference hword⟩

end AnnotationScan.Grammar
