import AnnotationScan.Proofs.Acceptance
import AnnotationScan.Proofs.Grammar.Phrases
import AnnotationScan.Proofs.Token.Search
import AnnotationScan.Scan

/-!
# Annotations with type arguments

Every type is recognized as the type argument of an annotation, provided that no dot touches a
question mark in front of it: the two are read as the sign of a safe access.
-/

namespace AnnotationScan

open Peg

namespace Grammar

open Reading

variable {source : Source TokenKind} {trace m : Bool} {row : List Reading} {i j : Nat}

/-- A phrase is matched from `i` up to `j`, if the token there does not continue it. -/
def Phrased (source : Source TokenKind) (trace : Bool) : TypePhrase → (m : Bool) → (i j : Nat) → Prop
  | .segment, m, i, j => (source.lexeme j).kind ≠ .less →
      Matches source (definitions trace) (simpleUserType trace) m i j
  | .user, m, i, j => (source.lexeme j).kind ≠ .less →
      ((source.lexeme j).kind = .dot → (source.lexeme (source.next j)).isWord = false) →
      Matches source (definitions trace) (userType trace) m i j
  | .parenthesized, m, i, j => Matches source (definitions trace) parenthesizedType m i j
  | .nullable, m, i, j => (source.lexeme j).kind ≠ .question →
      Matches source (definitions trace) (nullableType trace) m i j
  | .function, m, i, j => (source.lexeme j).kind ∈ typeEnds → Matches source (definitions trace)
      (Rule.seq [functionTypeParameters, .token .arrow, Nonterminal.type.rule]) m i j
  | .type, m, i, j => (source.lexeme j).kind ∈ typeEnds →
      Matches source (definitions trace) Nonterminal.type.rule m i j
  | .argument, m, i, j => (source.lexeme j).kind ∈ typeEnds →
      Matches source (definitions trace) typeProjection m i j
  | .parameter, m, i, j => (source.lexeme j).kind ∈ typeEnds → Matches source (definitions trace)
      (Rule.choice [Rule.seq [.word, .token .colon, Nonterminal.type.rule], Nonterminal.type.rule])
      m i j

/-- A row is matched as a phrase wherever it stands. -/
def Complete (source : Source TokenKind) (trace : Bool) (phrase : TypePhrase) (row : List Reading) :
    Prop :=
  ∀ m i j, i ≤ source.last → source.Reads Fits row i j → Phrased source trace phrase m i j

theorem unmodified_of_opening (h : Opening row) (hreads : source.Reads Fits row i j) :
    Unmodified source i := by
  cases h with
  | paren =>
      obtain ⟨-, hfits, -⟩ := hreads
      refine ⟨by rw [hfits.kind]; decide, by rw [hfits.kind]; decide, fun hword => ?_⟩
      rw [hfits.isWord] at hword
      cases hword
  | name hsoft _ =>
      obtain ⟨-, hfits, -⟩ := hreads
      refine ⟨by rw [hfits.kind]; exact (by decide : TokenKind.identifier ≠ .atSign),
        by rw [hfits.kind]; exact (by decide : TokenKind.identifier ≠ .inKeyword), fun _ => ?_⟩
      rwa [hfits.text]

theorem matches_segment {text : String} (hfits : (Reading.name text).Fits (source.lexeme i))
    (hlt : i < source.last)
    (h : Matches source (definitions trace) (.optional (typeArguments trace)) m (i + 1) j) :
    Matches source (definitions trace) (simpleUserType trace) m i j :=
  matches_named.2 (matches_pair.2
    ⟨i + 1, matches_word.2 ⟨hfits.isWord, (Source.next_of_lt hlt).symm⟩, h⟩)

theorem notMem_of_typeEnds : ∀ kind ∈ typeEnds, kind ∉ [TokenKind.less, .colon] ∧
    kind ∉ [TokenKind.question, .dot, .arrow, .ampersand] := by
  decide

theorem matches_rows {item : TokenRule} {closing : TokenKind} {rows : List (List Reading)}
    (hclosing : closing ∈ [.greater, .rightParen]) (hne : rows ≠ [])
    (hrows : ∀ row ∈ rows, ∀ i j, i ≤ source.last → source.Reads Fits row i j →
      (source.lexeme j).kind ∈ typeEnds → Matches source (definitions trace) item m i j)
    (hi : i ≤ source.last) (hreads : source.Reads Fits (commaSeparated rows) i j)
    (hend : (source.lexeme j).kind = closing) :
    Matches source (definitions trace) (commaList item) m i j := by
  refine matches_commaList (fun lexeme hfits => hfits.kind) ?_ hne
    (fun row hrow k l _ hk hread hkind => ?_) hreads hi hend
  · rintro rfl
    exact absurd hclosing (by decide)
  · apply hrows row hrow k l hk hread
    rcases List.mem_cons.1 hkind with hkind | hkind
    · rw [hkind]
      decide
    · rw [List.mem_singleton.1 hkind]
      exact List.mem_cons_of_mem _ hclosing

theorem matches_arguments {rows : List (List Reading)} (hne : rows ≠ [])
    (hrows : ∀ row ∈ rows, Complete source trace .argument row)
    (hreads : source.Reads Fits (sign .less :: (commaSeparated rows ++ [sign .greater])) i j) :
    Matches source (definitions trace) (typeArguments trace) m i j := by
  obtain ⟨hlt, hless, hrest⟩ := hreads
  obtain ⟨k, hlist, hlt', hgreater, rfl⟩ := Source.reads_append.1 hrest
  have hlist' : Matches source (definitions trace) (commaList typeProjection) m (i + 1) k :=
    matches_rows (by decide) hne (fun row hrow i j hi hread => hrows row hrow m i j hi hread) hlt
      hlist hgreater.kind
  have hnext := (Source.next_of_lt hlt).symm
  have hnext' := (Source.next_of_lt hlt').symm
  exact matches_named.2 (matches_andThen.2 ⟨i + 1, matches_token.2 ⟨hless.kind, hnext⟩,
    matches_pair.2 ⟨k, hlist', matches_token.2 ⟨hgreater.kind, hnext'⟩⟩⟩)

theorem matches_parameters {rows : List (List Reading)} (hsource : source.Marked)
    (hrows : ∀ row ∈ rows, Complete source trace .parameter row)
    (hreads : source.Reads Fits (sign .leftParen :: (commaSeparated rows ++ [sign .rightParen])) i j) :
    Matches source (definitions trace) functionTypeParameters m i j := by
  obtain ⟨hlt, hopening, hrest⟩ := hreads
  obtain ⟨k, hlist, hlt', hclosing, rfl⟩ := Source.reads_append.1 hrest
  have hnext := Source.next_of_lt hlt
  have hnext' := (Source.next_of_lt hlt').symm
  refine matches_wrapped.2 ⟨hopening.kind, k, ?_, hclosing.kind, hnext'⟩
  rw [hnext]
  by_cases hne : rows = []
  · subst hne
    obtain rfl : k = i + 1 := hlist
    have hkind : (source.lexeme (i + 1)).kind = .rightParen := hclosing.kind
    have hclosed : Bracket.read false [] (source.lexeme (i + 1)).kind = none := by
      rw [hkind]
      rfl
    exact matches_optional_closed hsource (.commaList (.orElse (.andThen .word
      (.andThen (.plain rfl) (.andThen .type .nothing))) .type)) (by decide) hlt hclosed
  · exact matches_optional.2 (.inl (matches_rows (by decide) hne
      (fun row hrow i j hi hread => hrows row hrow false i j hi hread) hlt hlist hclosing.kind))

theorem matches_questions {n : Nat} (hi : i ≤ source.last)
    (hreads : source.Reads Fits (List.replicate n (sign .question)) i j)
    (hend : (source.lexeme j).kind ≠ .question) :
    Matches source (definitions trace) (.many (.token .question)) m i j := by
  induction n generalizing i with
  | zero =>
      obtain rfl : j = i := hreads
      exact (refuses_token.2 hend).matches_many
  | succ n ih =>
      obtain ⟨hlt, hfits, hrest⟩ := hreads
      exact (matches_token.2 ⟨hfits.kind, (Source.next_of_lt hlt).symm⟩).matches_many
        (Nat.succ_ne_self i) (ih hlt hrest)

namespace Complete

variable {rows : List (List Reading)} {first rest left right receiver result : List Reading}
  {text : String} {phrase : TypePhrase}

theorem simple (text : String) : Complete source trace .segment [Reading.name text] := by
  rintro m i j - ⟨hlt, hfits, rfl⟩ hless
  exact matches_segment hfits hlt (matches_optional.2 (.inr ⟨refuses_typeArguments hless, rfl⟩))

theorem generic (hne : rows ≠ []) (ih : ∀ row ∈ rows, Complete source trace .argument row) :
    Complete source trace .segment
      (Reading.name text :: sign .less :: (commaSeparated rows ++ [sign .greater])) := by
  rintro m i j - ⟨hlt, hfits, hrest⟩ -
  exact matches_segment hfits hlt (matches_optional.2 (.inl (matches_arguments hne ih hrest)))

theorem segment (ih : Complete source trace .segment row) : Complete source trace .user row := by
  intro m i j hi hreads hless hdot
  have hnone : Refuses source (definitions trace)
      (Rule.seq [.token .dot, simpleUserType trace]) m j := by
    rw [refuses_pair, refuses_token, or_iff_not_imp_left, not_not]
    exact fun hkind => ⟨_, matches_token.2 ⟨hkind, rfl⟩,
      refuses_named.2 (refuses_seq (refuses_word.2 (hdot hkind)))⟩
  exact matches_named.2 (matches_pair.2 ⟨j, ih m i j hi hreads hless, hnone.matches_many⟩)

theorem qualified (ihfirst : Complete source trace .segment first)
    (ihrest : Complete source trace .user rest) :
    Complete source trace .user (first ++ sign .dot :: rest) := by
  intro m i j hi hreads hless hdot
  obtain ⟨k, hfirst, hlt, hfits, hrest⟩ := Source.reads_append.1 hreads
  have hkind : (source.lexeme k).kind = .dot := hfits.kind
  have hsegment := ihfirst m i k hi hfirst (by rw [hkind]; decide)
  obtain ⟨l, hnext, hmany⟩ := matches_pair.1 (matches_named.1 (ihrest m (k + 1) j hlt hrest hless hdot))
  have hstep : Matches source (definitions trace) (Rule.seq [.token .dot, simpleUserType trace])
      m k l := matches_pair.2 ⟨k + 1, matches_token.2 ⟨hkind, (Source.next_of_lt hlt).symm⟩, hnext⟩
  have hbounds := hnext.bounds hlt
  exact matches_named.2 (matches_pair.2 ⟨k, hsegment, hstep.matches_many (by omega) hmany⟩)

theorem parenthesized (ih : Complete source trace .type row) :
    Complete source trace .parenthesized (sign .leftParen :: (row ++ [sign .rightParen])) := by
  rintro m i j hi ⟨hlt, hopening, hrest⟩
  obtain ⟨k, htype, hlt', hclosing, rfl⟩ := Source.reads_append.1 hrest
  have hkind : (source.lexeme k).kind = .rightParen := hclosing.kind
  have hcontent := ih false (i + 1) k hlt htype (by rw [hkind]; decide)
  refine matches_wrapped.2 ⟨hopening.kind, k, ?_, hkind, (Source.next_of_lt hlt').symm⟩
  rwa [Source.next_of_lt hlt]

theorem nullable (hsource : source.Marked) (n : Nat) (hphrase : phrase ∈ [.user, .parenthesized])
    (ih : Complete source trace phrase row) :
    Complete source trace .nullable (row ++ List.replicate (n + 1) (sign .question)) := by
  intro m i j hi hreads hend
  obtain ⟨k, hbase, hquestions⟩ := Source.reads_append.1 hreads
  obtain ⟨hlt, hfits, hrest⟩ := id hquestions
  have hkind : (source.lexeme k).kind = .question := hfits.kind
  have hquestion : Matches source (definitions trace) (.token .question) m k (k + 1) :=
    matches_token.2 ⟨hkind, (Source.next_of_lt hlt).symm⟩
  refine matches_pair.2 ⟨k, ?_, matches_pair.2
    ⟨k + 1, hquestion, matches_questions hlt hrest hend⟩⟩
  simp only [List.mem_cons, List.not_mem_nil, or_false] at hphrase
  rcases hphrase with rfl | rfl
  · have htype := ih m i k hi hbase (by rw [hkind]; decide) (by rw [hkind]; exact nofun)
    exact matches_orElse.2 (.inl (matches_orElse.2 (.inl htype)))
  · have hparens := ih m i k hi hbase
    exact matches_orElse.2 (.inr
      ⟨refuses_typeReference (isWord_of_inParens hsource hparens), hparens⟩)

theorem function (hsource : source.Marked)
    (ihrows : ∀ row ∈ rows, Complete source trace .parameter row)
    (ihresult : Complete source trace .type result) :
    Complete source trace .function (sign .leftParen ::
      (commaSeparated rows ++ sign .rightParen :: sign .arrow :: result)) := by
  intro m i j hi hreads hend
  have hsplit : source.Reads Fits ((sign .leftParen :: (commaSeparated rows ++
      [sign .rightParen])) ++ sign .arrow :: result) i j := by simpa using hreads
  obtain ⟨k, hparameters, hlt, harrow, hresult⟩ := Source.reads_append.1 hsplit
  have hparameters' : Matches source (definitions trace) functionTypeParameters m i k :=
    matches_parameters hsource ihrows hparameters
  have htype := ihresult m (k + 1) j hlt hresult hend
  exact matches_andThen.2 ⟨k, hparameters', matches_pair.2 ⟨k + 1,
    matches_token.2 ⟨harrow.kind, (Source.next_of_lt hlt).symm⟩, htype⟩⟩

theorem extension (hsource : source.Marked) (hphrase : phrase ∈ [.user, .nullable, .parenthesized])
    (hreceiver : Opening receiver) (ihreceiver : Complete source trace phrase receiver)
    (ih : Complete source trace .function row) :
    Complete source trace .type (receiver ++ sign .dot :: row) := by
  intro m i j hi hreads hend
  obtain ⟨k, hfront, hlt, hfits, hrest⟩ := Source.reads_append.1 hreads
  have hkind : (source.lexeme k).kind = .dot := hfits.kind
  have hnext := Source.next_of_lt hlt
  have hbehind := ih m (k + 1) j hlt hrest hend
  obtain ⟨_, hparens, -⟩ := matches_andThen.1 hbehind
  have hword := isWord_of_inParens hsource hparens
  rw [← hnext] at hbehind hword
  simp only [List.mem_cons, List.not_mem_nil, or_false] at hphrase
  rcases hphrase with rfl | rfl | rfl
  all_goals
    refine matches_type_of_extension
      (unmodified_of_opening hreceiver hfront) ?_ hkind hbehind
  · have htype := ihreceiver m i k hi hfront (by rw [hkind]; decide) fun _ => hword
    have hnone := (Base.of_userType hsource htype).refuses_nullable (by rw [hkind]; decide)
    exact matches_orElse.2 (.inr ⟨hnone, matches_orElse.2 (.inr
      ⟨refuses_inParens_of_userType hsource htype, matches_orElse.2 (.inl htype)⟩)⟩)
  · exact matches_orElse.2 (.inl (ihreceiver m i k hi hfront (by rw [hkind]; decide)))
  · have hreceiver' := ihreceiver m i k hi hfront
    have hnone := (Base.of_inParens hsource hi .type hreceiver').refuses_nullable
      (by rw [hkind]; decide)
    exact matches_orElse.2 (.inr ⟨hnone, matches_orElse.2 (.inl hreceiver')⟩)

theorem intersection (hsource : source.Marked) (hleft : Opening left) (hright : Opening right)
    (ihleft : Complete source trace .user left) (ihright : Complete source trace .user right) :
    Complete source trace .type (left ++ sign .ampersand :: right) := by
  intro m i j hi hreads hend
  obtain ⟨k, hfirst, hlt, hfits, hrest⟩ := Source.reads_append.1 hreads
  have hkind : (source.lexeme k).kind = .ampersand := hfits.kind
  have hnext := Source.next_of_lt hlt
  have hends := notMem_of_typeEnds _ hend
  simp only [List.mem_cons, List.not_mem_nil, or_false, not_or] at hends
  refine matches_type_of_intersection hsource
    (unmodified_of_opening hleft hfirst)
    (ihleft m i k hi hfirst (by rw [hkind]; decide) (by rw [hkind]; exact nofun)) hkind ?_ ?_
  · rw [hnext]
    exact unmodified_of_opening hright hrest
  · rw [hnext]
    exact ihright m (k + 1) j hlt hrest hends.1.1 fun hdot => absurd hdot hends.2.2.1

theorem type (hsource : source.Marked)
    (hphrase : phrase ∈ [.user, .nullable, .function, .parenthesized]) (hrow : Opening row)
    (ih : Complete source trace phrase row) : Complete source trace .type row := by
  intro m i j hi hreads hend
  have hends := notMem_of_typeEnds _ hend
  simp only [List.mem_cons, List.not_mem_nil, or_false] at hphrase
  rcases hphrase with rfl | rfl | rfl | rfl
  all_goals have hmodifiers := unmodified_of_opening hrow hreads
  · have hless : (source.lexeme j).kind ≠ .less := fun hkind => hends.1 (by simp [hkind])
    have hdot : (source.lexeme j).kind ≠ .dot := fun hkind => hends.2 (by simp [hkind])
    exact matches_type_of_userType hsource hmodifiers
      (ih m i j hi hreads hless fun hkind => absurd hkind hdot) hends.2
  · have hquestion : (source.lexeme j).kind ≠ .question := fun hkind => hends.2 (by simp [hkind])
    have hdot : (source.lexeme j).kind ≠ .dot := fun hkind => hends.2 (by simp [hkind])
    exact matches_type_of_nullable hsource hi hmodifiers (ih m i j hi hreads hquestion) hdot
  · exact matches_type_of_function hsource hi hmodifiers (ih m i j hi hreads hend)
  · exact matches_type_of_parenthesized hsource hi hmodifiers (ih m i j hi hreads) hends.2

theorem invariant (hrow : Opening row) (ih : Complete source trace .type row) :
    Complete source trace .argument row := by
  intro m i j hi hreads hend
  have hmodifiers := unmodified_of_opening hrow hreads
  refine matches_orElse.2 (.inl ?_)
  exact matches_skip (refuses_seq hmodifiers.refuses_variance) (matches_andThen.2
    ⟨j, ih m i j hi hreads hend, matches_nothing.2 rfl⟩)

theorem variant {modifier : Reading} (hmodifier : modifier ∈ [sign .inKeyword, Reading.name "out"])
    (hrow : Opening row) (ih : Complete source trace .type row) :
    Complete source trace .argument (modifier :: row) := by
  rintro m i j hi ⟨hlt, hfits, hrest⟩ hend
  have hmodifiers := unmodified_of_opening hrow hrest
  have hvariance : Matches source (definitions trace) varianceModifier m i (i + 1) := by
    rw [← Source.next_of_lt hlt]
    simp only [List.mem_cons, List.not_mem_nil, or_false] at hmodifier
    rcases hmodifier with rfl | rfl
    · exact matches_orElse.2 (.inl (matches_token.2 ⟨hfits.kind, rfl⟩))
    · have hkind : (source.lexeme i).kind = .identifier := hfits.kind
      exact matches_orElse.2 (.inr ⟨refuses_token.2 (by rw [hkind]; decide),
        matches_keyword.2 ⟨⟨hfits.isWord, hfits.text⟩, rfl⟩⟩)
  have hmodifier' : Matches source (definitions trace) (Rule.atLeastOnce
      (Rule.choice [varianceModifier, Nonterminal.annotationUse.rule])) m i (i + 1) :=
    matches_pair.2 ⟨i + 1, matches_orElse.2 (.inl hvariance),
      hmodifiers.refuses_variance.matches_many⟩
  exact matches_orElse.2 (.inl (matches_pair.2 ⟨i + 1, matches_optional.2 (.inl hmodifier'),
    ih m (i + 1) j hlt hrest hend⟩))

theorem star (hsource : source.Marked) : Complete source trace .argument [sign .star] := by
  rintro m i j hi ⟨hlt, hfits, rfl⟩ -
  have hkind : (source.lexeme i).kind = .star := hfits.kind
  have hword : (source.lexeme i).isWord = false := hfits.isWord
  have hmodifiers : Unmodified source i := ⟨by rw [hkind]; decide, by rw [hkind]; decide,
    by rw [hword]; exact nofun⟩
  have hnone : Refuses source (definitions trace) Nonterminal.type.rule m i :=
    refuses_type hsource hmodifiers hword (by rw [hkind]; decide)
  refine matches_orElse.2 (.inr ⟨?_, matches_token.2 ⟨hkind, (Source.next_of_lt hlt).symm⟩⟩)
  exact refuses_skip (refuses_seq hmodifiers.refuses_variance) (refuses_seq hnone)

theorem unnamed (hrow : Opening row) (ih : Complete source trace .type row) :
    Complete source trace .parameter row := by
  intro m i j hi hreads hend
  have hname : Refuses source (definitions trace)
      (Rule.seq [.word, .token .colon, Nonterminal.type.rule]) m i := by
    cases hrow with
    | paren =>
        obtain ⟨-, hfits, -⟩ := hreads
        exact refuses_seq (refuses_word.2 hfits.isWord)
    | @name text rest _ hcolon =>
        obtain ⟨hlt, hfits, hrest⟩ := hreads
        have hnext : (source.lexeme (i + 1)).kind ≠ .colon := by
          cases rest with
          | nil =>
              obtain rfl : j = i + 1 := hrest
              exact fun hkind => (notMem_of_typeEnds _ hend).1 (by simp [hkind])
          | cons a rest =>
              obtain ⟨-, hfits', -⟩ := hrest
              rw [hfits'.kind]
              exact hcolon a rfl
        refine refuses_andThen.2 (.inr ⟨i + 1, matches_word.2
          ⟨hfits.isWord, (Source.next_of_lt hlt).symm⟩, refuses_seq (refuses_token.2 hnext)⟩)
  exact matches_orElse.2 (.inr ⟨hname, ih m i j hi hreads hend⟩)

theorem named (ih : Complete source trace .type row) :
    Complete source trace .parameter (Reading.name text :: sign .colon :: row) := by
  rintro m i j hi ⟨hlt, hname, hlt', hcolon, hrest⟩ hend
  have htype := ih m (i + 1 + 1) j hlt' hrest hend
  refine matches_orElse.2 (.inl (matches_andThen.2 ⟨i + 1, matches_word.2
    ⟨hname.isWord, (Source.next_of_lt hlt).symm⟩, matches_pair.2 ⟨i + 1 + 1, matches_token.2
      ⟨hcolon.kind, (Source.next_of_lt hlt').symm⟩, htype⟩⟩))

end Complete

/-- Every row that is a phrase is matched as that phrase. -/
theorem complete_of_typeForm (hsource : source.Marked) {phrase : TypePhrase}
    (h : TypeForm phrase row) : Complete source trace phrase row := by
  induction h with
  | simple => exact .simple _
  | generic _ hne _ ih => exact .generic hne ih
  | segment _ ih => exact ih.segment
  | qualified _ _ ihfirst ihrest => exact ihfirst.qualified ihrest
  | parenthesized _ ih => exact ih.parenthesized
  | nullable n hphrase _ ih => exact ih.nullable hsource n hphrase
  | function _ _ ihrows ihresult => exact .function hsource ihrows ihresult
  | extension hphrase hreceiver _ ihreceiver ih =>
      have hopening := hreceiver.opening (notMem_of_whole _ ((by decide : _ ⊆ whole) hphrase))
      exact .extension hsource hphrase hopening ihreceiver ih
  | intersection hleft hright ihleft ihright =>
      exact .intersection hsource (hleft.opening (by decide)) (hright.opening (by decide)) ihleft ihright
  | type hphrase h ih => exact .type hsource hphrase (h.opening (notMem_of_whole _ hphrase)) ih
  | invariant h ih => exact ih.invariant (h.opening (by decide))
  | variant hmodifier h ih => exact ih.variant hmodifier (h.opening (by decide))
  | star => exact .star hsource
  | unnamed h ih => exact ih.unnamed (h.opening (by decide))
  | named _ _ ih => exact ih.named

theorem matches_genericType {text : String} {rows : List (List Reading)} (hsource : source.Marked)
    (hne : rows ≠ []) (hrows : ∀ row ∈ rows, TypeForm .argument row)
    (hreads : source.Reads Fits
      (Reading.name text :: sign .less :: (commaSeparated rows ++ [sign .greater])) i j)
    (hend : (source.lexeme j).kind ≠ .dot) :
    Matches source (definitions trace) (userType trace) m i j := by
  obtain ⟨hlt, hfits, hrest⟩ := hreads
  have harguments : Matches source (definitions trace) (typeArguments trace) m (i + 1) j :=
    matches_arguments hne (fun row hrow => complete_of_typeForm hsource (hrows row hrow)) hrest
  exact matches_named.2 (matches_pair.2 ⟨j, matches_segment hfits hlt
    (matches_optional.2 (.inl harguments)),
    (refuses_seq (refuses_token.2 hend)).matches_many⟩)

theorem matches_unescaped (h : Matches source (definitions trace) (userType trace) m i j)
    (hkind : (source.lexeme j).kind ≠ .leftParen) :
    Matches source (definitions trace) (annotationUnescaped trace) m i j := by
  have hnone : Refuses source (definitions trace) (constructorInvocation trace) m i :=
    refuses_named.2 (refuses_pair.2 (.inr
      ⟨j, h, refuses_onSameLine.2 (.inr (refuses_valueArguments hkind))⟩))
  refine matches_named.2 (matches_orElse.2 (.inr ⟨hnone, matches_pair.2 ⟨j, h, ?_⟩⟩))
  exact matches_notAhead.2 ⟨refuses_onSameLine.2 (.inr (refuses_token.2 hkind)), rfl⟩

end Grammar

namespace Reading

def annotated (text : String) (row : List Reading) : List Reading :=
  sign .atSign :: name text :: sign .less :: (row ++ [sign .greater])

variable {text : String} {row : List Reading} {apart : Reading → Reading → Bool}

theorem Separates.annotated (h : Separates apart row) : Separates apart (annotated text row) := by
  refine ⟨h.words, h.dot.imp id fun hnot hpair => hnot ?_⟩
  have hfront : ∀ (a b : Reading) (rest : List Reading), a ≠ sign .question →
      [sign .question, b] <:+: a :: rest → [sign .question, b] <:+: rest := by
    intro a b rest ha hinfix
    refine (List.infix_cons_iff.1 hinfix).resolve_left fun hprefix => ha ?_
    exact (List.cons_prefix_cons.1 hprefix).1.symm
  have hpair := hfront _ _ _ (by decide) hpair
  have hpair := hfront _ _ _ (by simp [Reading.name, sign]) hpair
  have hpair := hfront _ _ _ (by decide) hpair
  refine (List.infix_concat_iff.1 hpair).resolve_left ?_
  rintro ⟨front, hsuffix⟩
  have hlast := congrArg List.getLast? hsuffix
  rw [List.getLast?_concat, List.getLast?_append, List.getLast?_cons_cons] at hlast
  exact absurd (Option.some.inj hlast) (by decide)

theorem TypeForm.neat_annotated (htext : IsName text) (h : TypeForm .type row) :
    Neat (Reading.annotated text row) :=
  .sign (by decide) (by decide) (.name htext (.sign (by decide) (by decide)
    (h.neat.append (.sign (by decide) (by decide) .nil))))

end Reading

namespace Recognizer

open Reading Tokenized

/-- An annotation with a type argument is all of its text. -/
theorem scan_typeArgument (settings : Settings) (apart : Reading → Reading → Bool) (text : String)
    (row : List Reading) (htext : IsName text) (hrow : TypeForm .type row)
    (hapart : Separates apart row) (hdepth : 3 * (row.length + 4) ≤ settings.maxDepth) :
    let source := Reading.text apart (annotated text row)
    (build settings).scan source = .matched ⟨0, source.utf8ByteSize⟩ source.utf8ByteSize := by
  intro source
  have hneat := hrow.neat_annotated htext
  have hchain := hneat.legal hapart.annotated
  have hlength : (annotated text row).length = row.length + 4 := by simp [annotated]
  have hlast : (ofSource source).tokens.toSource.last = (annotated text row).length :=
    last_text hneat.legible hchain
  have hmarked := marked_ofSource source
  have hend : ((ofSource source).tokens.toSource.lexeme (annotated text row).length).kind =
      .endOfInput := by
    rw [Source.lexeme_of_last_le _ (Nat.le_of_eq hlast), hmarked.marker]
  obtain ⟨hlt, hat, htype⟩ := reads_text hneat.legible hchain
  obtain ⟨hlt', -, -, hless, -⟩ := id htype
  have huser : Matches (ofSource source).tokens.toSource (Grammar.definitions settings.traceRules)
      (Grammar.userType settings.traceRules) true 1 (annotated text row).length := by
    have hrows : ∀ row' ∈ [row], TypeForm .argument row' := by simpa using hrow.invariant
    have hreads : (ofSource source).tokens.toSource.Reads Fits
        (name text :: sign .less :: (commaSeparated [row] ++ [sign .greater])) 1
        (annotated text row).length := by
      simpa [commaSeparated] using htype
    exact Grammar.matches_genericType hmarked (List.cons_ne_nil row []) hrows hreads
      (by rw [hend]; decide)
  have hentry : Matches (ofSource source).tokens.toSource (Grammar.definitions settings.traceRules)
      (Grammar.plainEntry settings.traceRules) true 0 (annotated text row).length := by
    apply Grammar.matches_plainEntry hat.kind
    · rw [Source.next_of_lt hlt, Source.next_of_lt hlt', hless.kind]
      decide
    · rw [Source.next_of_lt hlt]
      exact Grammar.matches_unescaped huser (by rw [hend]; decide)
  have hmatch := matchAt_of_matches hmarked (by rw [hlast, hlength]; exact hdepth) hentry
  have hspan := spanFrom_text hneat.legible hchain (List.cons_ne_nil _ _)
  rw [hspan, ← recognizeAt_eq_ok_iff] at hmatch
  rw [scan, scanAt, TokenList.firstAtOrAfter_zero, hmatch, verdict, get?_text hneat.legible hchain]
  rfl

def nullableReceiver : List Reading :=
  [name "A"] ++ [sign .question] ++ sign .dot :: sign .leftParen :: ([] ++ sign .rightParen ::
    sign .arrow :: [name "B"])

theorem typeForm_nullableReceiver : TypeForm .type nullableReceiver := by
  have hname : ∀ {text : String} {c : Char}, text.toList = [c] → Piece.isWordStart c = true →
      TokenKind.keyword? text = none → text ∉ Grammar.softKeywords → TypeForm .user [name text] :=
    fun htext hc hhard hsoft => .segment (.simple ⟨⟨⟨_, [], htext, hc, rfl⟩, hhard⟩, hsoft⟩)
  have hnullable : TypeForm .nullable ([name "A"] ++ List.replicate 1 (sign .question)) :=
    .nullable 0 (by decide) (hname rfl (by decide) (by decide) (by decide))
  have hresult : TypeForm .type [name "B"] :=
    .type (show TypePhrase.user ∈ whole by decide)
      (hname rfl (by decide) (by decide) (by decide))
  exact .extension (by decide) hnullable (.function (List.forall_mem_nil _) hresult)

theorem isName_Name : IsName "Name" :=
  ⟨⟨'N', ['a', 'm', 'e'], rfl, by decide, by decide⟩, by decide⟩

theorem scan_typeArgument_nullableReceiver :
    let apart (a b : Reading) : Bool := wordsApart a b || (a = sign .question && b = sign .dot)
    Reading.text apart (annotated "Name" nullableReceiver) = "@Name<A? .()->B>" ∧
      (build {}).scan "@Name<A? .()->B>" = .matched ⟨0, 16⟩ 16 := by
  intro apart
  have htext : Reading.text apart (annotated "Name" nullableReceiver) = "@Name<A? .()->B>" := by
    decide +kernel
  have hapart : Separates apart nullableReceiver := by
    refine ⟨fun a b ha hb => ?_, .inl (by decide)⟩
    simp [apart, wordsApart, ha, hb]
  have hscan := scan_typeArgument {} apart "Name" nullableReceiver isName_Name
    typeForm_nullableReceiver hapart (by decide)
  rw [htext] at hscan
  exact ⟨htext, hscan⟩

/-- Without a blank the question mark and the dot are a safe access, and no type goes on with one. -/
theorem not_forall_scan_typeArgument :
    ¬∀ (settings : Settings) (text : String) (row : List Reading), IsName text →
      TypeForm .type row → 3 * (row.length + 4) ≤ settings.maxDepth →
      let source := Reading.text wordsApart (annotated text row)
      (build settings).scan source = .matched ⟨0, source.utf8ByteSize⟩ source.utf8ByteSize := by
  intro h
  have hscan := h {} "Name" nullableReceiver isName_Name typeForm_nullableReceiver (by decide)
  have hcompact : Reading.text wordsApart (annotated "Name" nullableReceiver) = "@Name<A?.()->B>" := by
    decide +kernel
  have hshort : (build {}).scan "@Name<A?.()->B>" = .matched ⟨0, 5⟩ 5 := by
    decide +kernel
  dsimp only at hscan
  rw [hcompact, hshort] at hscan
  revert hscan
  decide

end Recognizer
end AnnotationScan
