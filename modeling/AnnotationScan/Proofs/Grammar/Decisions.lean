import AnnotationScan.Proofs.Descent
import AnnotationScan.Proofs.Peg.Matching

/-!
# Decisions of the grammar

Every rule of the grammar decides at every token: it matches or it does not.  The shapes that the
productions are made of have laws of their own, and a production that starts with a certain token
does not match anywhere else.
-/

namespace AnnotationScan

open Peg

/-- The tokens from `i` up to `j` are one after the other such as the list tells. -/
def Peg.Source.Reads {κ α : Type} (source : Source κ) (fits : α → Lexeme κ → Prop) :
    List α → (i j : Nat) → Prop
  | [], i, j => j = i
  | a :: rest, i, j =>
    i < source.last ∧ fits a (source.lexeme i) ∧ source.Reads fits rest (i + 1) j

namespace Peg.Source

variable {κ α : Type} {source : Source κ} {fits : α → Lexeme κ → Prop} {i j : Nat}

theorem reads_append {front rest : List α} : source.Reads fits (front ++ rest) i j ↔
    ∃ k, source.Reads fits front i k ∧ source.Reads fits rest k j := by
  induction front generalizing i with
  | nil => simp [Reads]
  | cons a front ih =>
      simp only [List.cons_append, Reads, ih]
      constructor
      · rintro ⟨hlt, hfits, k, hfront, hrest⟩
        exact ⟨k, ⟨hlt, hfits, hfront⟩, hrest⟩
      · rintro ⟨k, ⟨hlt, hfits, hfront⟩, hrest⟩
        exact ⟨hlt, hfits, k, hfront, hrest⟩

theorem Reads.length_eq {row : List α} (h : source.Reads fits row i j) : j = i + row.length := by
  induction row generalizing i with
  | nil => exact h
  | cons a rest ih =>
      have hrest := ih h.2.2
      rw [List.length_cons]
      omega

theorem Reads.le_last {row : List α} (h : source.Reads fits row i j) (hi : i ≤ source.last) :
    j ≤ source.last := by
  induction row generalizing i with
  | nil => exact h ▸ hi
  | cons a rest ih => exact ih h.2.2 h.1

theorem reads_of_forall {row : List α} (hlast : i + row.length ≤ source.last)
    (h : ∀ n (hn : n < row.length), fits row[n] (source.lexeme (i + n))) :
    source.Reads fits row i (i + row.length) := by
  induction row generalizing i with
  | nil => rfl
  | cons a rest ih =>
      rw [List.length_cons] at hlast
      refine ⟨by omega, h 0 (Nat.succ_pos _), ?_⟩
      have hrest := ih (i := i + 1) (by omega) fun n hn => by
        have hn' := h (n + 1) (Nat.succ_lt_succ hn)
        rwa [List.getElem_cons_succ, ← Nat.add_assoc, Nat.add_right_comm] at hn'
      rwa [Nat.add_assoc, Nat.add_comm 1, ← List.length_cons] at hrest

theorem next_of_lt (h : i < source.last) : source.next i = i + 1 := Nat.min_eq_left h

end Peg.Source

namespace Grammar

variable {source : Source TokenKind} {trace m : Bool} {rule part item : TokenRule} {i j k : Nat}

/-- A rule of the grammar matches at a token or it does not. -/
theorem matches_or_refuses (hsource : source.Marked)
    (hrefers : ∀ r, rule.RefersTo r → ∃ nonterminal : Nonterminal, nonterminal.index = r)
    (hfatal : rule.has Rule.isFatal = false) (hi : i ≤ source.last) :
    (∃ j, Matches source (definitions trace) rule m i j) ∨
      Refuses source (definitions trace) rule m i := by
  have hkeeps := keeps_affordable hsource trace (3 * source.last + 3)
  have hempty : ({} : State).Truthful source (definitions trace) :=
    State.truthful_of_memo_empty rfl
  have hcalls : ∀ r mode' j, Calls source (definitions trace) r mode' j rule ⟨m, false⟩ i →
      Affordable source (3 * source.last + 3) r j := by
    intro r mode' j hcall
    obtain ⟨callee, rfl⟩ := hrefers r hcall.refersTo
    have hheight := callee.height_le
    exact ⟨callee, rfl, by omega⟩
  have hrun := hkeeps.run_proceeds (hkeeps.invoke_proceeds _) 0 rule
    (fun htrue => absurd htrue (Bool.eq_false_iff.1 hfatal)) ⟨m, false⟩ hi hcalls
    ⟨hempty, fun f hf => nomatch hf⟩
  obtain ⟨-, hexplained⟩ := rule.run_invoke_sound source (definitions trace)
    (3 * source.last + 3) (3 * source.last + 3) 0 ⟨m, false⟩ i {} hi hempty
  rcases hrun with ⟨cause, -, hfalse⟩ | ⟨hdecided, -⟩
  · exact hfalse.elim
  · obtain ⟨d, hd⟩ := hexplained.derives hdecided
    revert hd
    cases (rule.run source 0 _ ⟨m, false⟩ i ({} : State)).1 with
    | matched v j => exact fun hd => .inl ⟨j, d, v, hd⟩
    | failed f => exact fun hd => .inr ⟨d, f, hd⟩
    | aborted cause => exact fun hd => nomatch hd.isDecided

/-! ## Shapes -/

theorem matches_named {name : String} :
    Matches source (definitions trace) (named trace name part) m i j ↔
      Matches source (definitions trace) part m i j := by
  unfold named
  split
  · exact matches_traced
  · exact Iff.rfl

theorem refuses_named {name : String} :
    Refuses source (definitions trace) (named trace name part) m i ↔
      Refuses source (definitions trace) part m i := by
  unfold named
  split
  · exact refuses_traced
  · exact Iff.rfl

theorem refuses_omitted {name : String} :
    Refuses source (definitions trace) (omitted trace name) m i :=
  refuses_named.2 (refuses_fail rfl)

theorem matches_nonterminal {nonterminal : Nonterminal} :
    Matches source (definitions trace) nonterminal.rule m i j ↔
      Matches source (definitions trace) (nonterminal.body trace) m i j :=
  matches_ref (definitions_body? trace nonterminal)

theorem refuses_nonterminal {nonterminal : Nonterminal} :
    Refuses source (definitions trace) nonterminal.rule m i ↔
      Refuses source (definitions trace) (nonterminal.body trace) m i :=
  refuses_ref (definitions_body? trace nonterminal)

theorem matches_pair {first second : TokenRule} :
    Matches source (definitions trace) (Rule.seq [first, second]) m i j ↔
      ∃ k, Matches source (definitions trace) first m i k ∧
        Matches source (definitions trace) second m k j := by
  simp only [Rule.seq, matches_andThen, matches_nothing, exists_eq_right']

theorem refuses_pair {first second : TokenRule} :
    Refuses source (definitions trace) (Rule.seq [first, second]) m i ↔
      Refuses source (definitions trace) first m i ∨
        ∃ k, Matches source (definitions trace) first m i k ∧
          Refuses source (definitions trace) second m k := by
  simp only [Rule.seq, refuses_andThen, not_refuses_nothing, and_false, exists_false, or_false]

theorem refuses_seq {first : TokenRule} {rest : List TokenRule}
    (h : Refuses source (definitions trace) first m i) :
    Refuses source (definitions trace) (Rule.seq (first :: rest)) m i :=
  refuses_andThen.2 (.inl h)

theorem matches_tokenAmong {kinds : List TokenKind} :
    Matches source (definitions trace) (tokenAmong kinds) m i j ↔
      (source.lexeme i).kind ∈ kinds ∧ j = source.next i := by
  induction kinds with
  | nil => simpa [tokenAmong, Rule.choice] using not_matches_fail
  | cons kind kinds ih =>
      cases kinds with
      | nil => simpa [tokenAmong, Rule.choice] using matches_token
      | cons next kinds =>
          have hne : (next :: kinds).map (Rule.token (κ := TokenKind)) ≠ [] := by simp
          rw [tokenAmong, List.map_cons, matches_choice_cons hne, matches_token, refuses_token,
            ← tokenAmong, ih, List.mem_cons (a := (source.lexeme i).kind) (b := kind)]
          by_cases hkind : (source.lexeme i).kind = kind
          · simp [hkind]
          · simp [hkind]

theorem refuses_tokenAmong {kinds : List TokenKind} :
    Refuses source (definitions trace) (tokenAmong kinds) m i ↔
      (source.lexeme i).kind ∉ kinds := by
  rw [tokenAmong, refuses_choice, List.forall_mem_map]
  simp only [refuses_token]
  exact ⟨fun h hmem => h _ hmem rfl, fun h kind hmem hkind => h (hkind ▸ hmem)⟩

theorem matches_keywordAmong {words : List String} :
    Matches source (definitions trace) (keywordAmong words) m i j ↔
      ((source.lexeme i).isWord = true ∧ (source.lexeme i).text ∈ words) ∧ j = source.next i := by
  induction words with
  | nil => simpa [keywordAmong, Rule.choice] using not_matches_fail
  | cons word words ih =>
      cases words with
      | nil => simpa [keywordAmong, Rule.choice] using matches_keyword
      | cons next words =>
          have hne : (next :: words).map (Rule.keyword (κ := TokenKind)) ≠ [] := by simp
          rw [keywordAmong, List.map_cons, matches_choice_cons hne, matches_keyword,
            refuses_keyword, ← keywordAmong, ih, List.mem_cons (b := word)]
          by_cases htext : (source.lexeme i).text = word
          · cases (source.lexeme i).isWord <;> simp [htext]
          · simp [htext]

theorem refuses_keywordAmong {words : List String} :
    Refuses source (definitions trace) (keywordAmong words) m i ↔
      ¬((source.lexeme i).isWord = true ∧ (source.lexeme i).text ∈ words) := by
  rw [keywordAmong, refuses_choice, List.forall_mem_map]
  simp only [refuses_keyword]
  exact ⟨fun h hword => h _ hword.2 ⟨hword.1, rfl⟩,
    fun h word hmem hword => h ⟨hword.1, hword.2 ▸ hmem⟩⟩

theorem matches_onSameLine : Matches source (definitions trace) (onSameLine part) m i j ↔
    (m && (source.lexeme i).newlineBefore) = false ∧
      Matches source (definitions trace) part m i j := by
  rw [onSameLine, matches_pair]
  simp only [matches_notAhead, refuses_lineBreak, and_assoc, exists_and_left, exists_eq_left]

theorem refuses_onSameLine : Refuses source (definitions trace) (onSameLine part) m i ↔
    (m && (source.lexeme i).newlineBefore) = true ∨
      Refuses source (definitions trace) part m i := by
  rw [onSameLine, refuses_pair]
  simp only [matches_notAhead, refuses_notAhead, matches_lineBreak, refuses_lineBreak,
    Bool.and_eq_true, Bool.and_eq_false_iff]
  constructor
  · rintro (⟨_, hm, hline, -⟩ | ⟨_, ⟨-, rfl⟩, hpart⟩)
    · exact .inl ⟨hm, hline⟩
    · exact .inr hpart
  · rintro (⟨hm, hline⟩ | hpart)
    · exact .inl ⟨i, hm, hline, rfl⟩
    · by_cases hline : m = true ∧ (source.lexeme i).newlineBefore = true
      · exact .inl ⟨i, hline.1, hline.2, rfl⟩
      · refine .inr ⟨i, ⟨?_, rfl⟩, hpart⟩
        rwa [not_and_or, Bool.not_eq_true, Bool.not_eq_true] at hline

theorem matches_between {opening closing : TokenKind} {content : TokenRule} :
    Matches source (definitions trace)
        (Rule.wrapped (.token opening) content (.token closing)) m i j ↔
      (source.lexeme i).kind = opening ∧
        ∃ k, Matches source (definitions trace) content m (source.next i) k ∧
          (source.lexeme k).kind = closing ∧ j = source.next k := by
  simp only [Rule.wrapped, Rule.seq, matches_andThen, matches_nothing, matches_token]
  constructor
  · rintro ⟨_, ⟨hopening, rfl⟩, k, hcontent, _, ⟨hclosing, rfl⟩, rfl⟩
    exact ⟨hopening, k, hcontent, hclosing, rfl⟩
  · rintro ⟨hopening, k, hcontent, hclosing, rfl⟩
    exact ⟨_, ⟨hopening, rfl⟩, k, hcontent, _, ⟨hclosing, rfl⟩, rfl⟩

theorem matches_wrapped {opening closing : TokenKind} {count : Bool} :
    Matches source (definitions trace)
        (Rule.wrapped (.token opening) (.newlines count part) (.token closing)) m i j ↔
      (source.lexeme i).kind = opening ∧
        ∃ k, Matches source (definitions trace) part count (source.next i) k ∧
          (source.lexeme k).kind = closing ∧ j = source.next k := by
  simp only [matches_between, matches_newlines]

theorem refuses_wrapped {opening closing : TokenKind} {content : TokenRule}
    (h : (source.lexeme i).kind ≠ opening) :
    Refuses source (definitions trace)
      (Rule.wrapped (.token opening) content (.token closing)) m i :=
  refuses_seq (refuses_token.2 h)

/-! ## First tokens -/

theorem refuses_annotationUse (h : (source.lexeme i).kind ≠ .atSign) :
    Refuses source (definitions trace) Nonterminal.annotationUse.rule m i := by
  have hat : Refuses source (definitions trace) (.token .atSign) m i := refuses_token.2 h
  refine refuses_nonterminal.2 (refuses_named.2 (refuses_orElse.2 ⟨?_, ?_⟩))
  · exact refuses_named.2 (refuses_seq hat)
  · exact refuses_named.2 (refuses_seq hat)

theorem refuses_typeArguments (h : (source.lexeme i).kind ≠ .less) :
    Refuses source (definitions trace) (typeArguments trace) m i :=
  refuses_named.2 (refuses_seq (refuses_token.2 h))

theorem refuses_valueArguments (h : (source.lexeme i).kind ≠ .leftParen) :
    Refuses source (definitions trace) (valueArguments trace) m i :=
  refuses_named.2 (refuses_wrapped h)

theorem refuses_lambdaLiteral (h : (source.lexeme i).kind ≠ .leftBrace) :
    Refuses source (definitions trace) (lambdaLiteral trace) m i :=
  refuses_named.2 (refuses_wrapped h)

theorem refuses_targetPrefix (h : (source.lexeme (source.next i)).kind ≠ .colon) :
    Refuses source (definitions trace) targetPrefix m i := by
  rw [targetPrefix, refuses_pair, refuses_keywordAmong, or_iff_not_imp_left, not_not]
  exact fun hword => ⟨_, matches_keywordAmong.2 ⟨hword, rfl⟩, refuses_token.2 h⟩

theorem matches_plainEntry (hat : (source.lexeme i).kind = .atSign)
    (hcolon : (source.lexeme (source.next (source.next i))).kind ≠ .colon)
    (hunescaped : Matches source (definitions trace) (annotationUnescaped trace) m (source.next i) j) :
    Matches source (definitions trace) (plainEntry trace) m i j := by
  have htarget : Refuses source (definitions trace) targetPrefix m (source.next i) :=
    refuses_targetPrefix hcolon
  refine matches_named.2 (matches_orElse.2 (.inl (matches_named.2 (matches_pair.2
    ⟨source.next i, matches_token.2 ⟨hat, rfl⟩, matches_orElse.2 (.inr ⟨refuses_seq htarget, ?_⟩)⟩))))
  exact matches_pair.2 ⟨_, matches_notAhead.2 ⟨htarget, rfl⟩, hunescaped⟩

/-! ## Repetitions -/

/-- The part matches again and again, each time behind the match before it. -/
inductive Rounds (source : Source TokenKind) (trace : Bool) (part : TokenRule) (m : Bool) :
    Nat → Nat → Prop
  | refl {i : Nat} : Rounds source trace part m i i
  | step {i j k : Nat} (h : Rounds source trace part m i j) (hjk : j < k)
      (hpart : Matches source (definitions trace) part m j k) : Rounds source trace part m i k

theorem Rounds.matches_many (h : Rounds source trace part m i j)
    (hrest : Matches source (definitions trace) (.many part) m j k) :
    Matches source (definitions trace) (.many part) m i k := by
  induction h with
  | refl => exact hrest
  | step _ hjk hpart ih => exact ih (hpart.matches_many hjk.ne' hrest)

theorem Rounds.many (h : Rounds source trace part m i j)
    (hend : Refuses source (definitions trace) part m j) :
    Matches source (definitions trace) (.many part) m i j :=
  h.matches_many hend.matches_many

/-- Rows of tokens with commas between them, each of which is an item where a comma or the end of the
list follows it. -/
theorem matches_commaList {α : Type} {fits : α → Lexeme TokenKind → Prop} {comma : α}
    {closing : TokenKind} (hcomma : ∀ lexeme, fits comma lexeme → lexeme.kind = .comma)
    (hclosing : closing ≠ .comma) {rows : List (List α)} (hne : rows ≠ [])
    (hitem : ∀ row ∈ rows, ∀ k l, i ≤ k → k ≤ source.last → source.Reads fits row k l →
      (source.lexeme l).kind ∈ [.comma, closing] → Matches source (definitions trace) item m k l)
    (hreads : source.Reads fits ([comma].intercalate rows) i j) (hi : i ≤ source.last)
    (hend : (source.lexeme j).kind = closing) :
    Matches source (definitions trace) (commaList item) m i j := by
  have hnone : Refuses source (definitions trace) (.token .comma) m j := by
    rw [refuses_token, hend]
    exact hclosing
  suffices h : ∃ k, Matches source (definitions trace) item m i k ∧
      Matches source (definitions trace) (.many (Rule.seq [.token .comma, item])) m k j by
    obtain ⟨k, hfirst, hmany⟩ := h
    exact matches_andThen.2 ⟨k, hfirst, matches_pair.2
      ⟨j, hmany, matches_optional.2 (.inr ⟨hnone, rfl⟩)⟩⟩
  induction rows generalizing i with
  | nil => exact absurd rfl hne
  | cons row rows ih =>
      have hfirst := hitem row List.mem_cons_self i
      cases rows with
      | nil =>
          have hrow : source.Reads fits row i j := by simpa using hreads
          exact ⟨j, hfirst j (Nat.le_refl i) hi hrow (by simp [hend]),
            (refuses_seq hnone).matches_many⟩
      | cons next rows =>
          rw [List.intercalate_cons_cons, List.append_assoc, Source.reads_append] at hreads
          obtain ⟨k, hrow, hlt, hfits, hrest⟩ := hreads
          have hkind := hcomma _ hfits
          have hik : i ≤ k := hrow.length_eq ▸ Nat.le_add_right i _
          obtain ⟨l, hnext, hmany⟩ := ih (List.cons_ne_nil next rows)
            (fun r hr k' l' hk' => hitem r (List.mem_cons_of_mem row hr) k' l' (by omega)) hrest hlt
          have hbounds := hnext.bounds hlt
          have hpair : Matches source (definitions trace) (Rule.seq [.token .comma, item]) m k l :=
            matches_pair.2 ⟨k + 1, matches_token.2 ⟨hkind, (Source.next_of_lt hlt).symm⟩, hnext⟩
          exact ⟨k, hfirst k (Nat.le_refl i) hi hrow (by simp [hkind]),
            hpair.matches_many (by omega) hmany⟩

/-- Nothing is taken for a part in front of a bracket that closes an outer one. -/
theorem matches_optional_closed (hsource : source.Marked) {types : Bool}
    (hnests : Nests types [] part []) (hfatal : part.has Rule.isFatal = false)
    (hi : i ≤ source.last)
    (hkind : Bracket.read types [] (source.lexeme i).kind = none) :
    Matches source (definitions trace) (.optional part) m i i := by
  have hoptional : Nests types [] (.optional part) [] := .optional hnests
  have hdecided : (∃ k, Matches source (definitions trace) (.optional part) m i k) ∨
      Refuses source (definitions trace) (.optional part) m i :=
    matches_or_refuses hsource hoptional.refersTo (by simpa [Rule.has, Rule.isFatal] using hfatal) hi
  rcases hdecided with ⟨k, hk⟩ | hnone
  · obtain ⟨d, v, hd⟩ := id hk
    have hnesting := hoptional.nesting hsource hd hi k rfl
    have hle := Source.nesting_le (n := 0) rfl (by simpa using hkind) hnesting
    have hbounds := hk.bounds hi
    obtain rfl : k = i := by omega
    exact hk
  · exact absurd hnone not_refuses_optional

end Grammar
end AnnotationScan
