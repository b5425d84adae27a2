import AnnotationScan.Proofs.Grammar.Enclosures

/-!
# Rules in front of a comma and of a closing parenthesis

A rule that is no list looks for a comma or a closing parenthesis in brackets only.  Where the same
tokens stand in front of the one or the other, it decides alike.
-/

namespace AnnotationScan.Grammar

open Peg

def opensBracket : TokenRule → Bool
  | .traced _ part => opensBracket part
  | .andThen (.token kind) _ => (kind.opened? true).isSome
  | _ => false

/-- The rule looks for a comma or a closing parenthesis in brackets only. -/
def selfContained (trace : Bool) (rule : TokenRule) : Bool :=
  (opensBracket rule && (enclosures trace).contains rule) ||
    match rule with
    | .token kind => kind != .comma && kind != .rightParen
    | .word | .keyword _ | .nothing | .lineBreak | .fail _ | .ref _ => true
    | .andThen first second | .orElse first second =>
      selfContained trace first && selfContained trace second
    | .optional part | .many part | .ahead part | .notAhead part | .traced _ part =>
      selfContained trace part
    | _ => false

theorem selfContained_body (nonterminal : Nonterminal) (trace : Bool) :
    selfContained trace (nonterminal.body trace) = true := by
  revert trace
  cases nonterminal <;> decide

theorem selfContained_valueArgument (trace : Bool) :
    selfContained trace (valueArgument trace) = true := by
  revert trace
  decide

variable {source source' : Source TokenKind} {trace m : Bool} {rule first second part : TokenRule}
  {start stop d i j : Nat} {o : Outcome}

theorem selfContained_andThen (h : selfContained trace (.andThen first second) = true) :
    .andThen first second ∈ enclosures trace ∨
      selfContained trace first = true ∧ selfContained trace second = true := by
  rw [selfContained, Bool.or_eq_true, Bool.and_eq_true, Bool.and_eq_true, List.contains_iff_mem] at h
  exact h.imp_left And.right

theorem selfContained_orElse (h : selfContained trace (.orElse first second) = true) :
    selfContained trace first = true ∧ selfContained trace second = true := by
  simpa [selfContained, opensBracket] using h

theorem selfContained_traced {name : String} (h : selfContained trace (.traced name part) = true) :
    .traced name part ∈ enclosures trace ∨ selfContained trace part = true := by
  rw [selfContained, Bool.or_eq_true, Bool.and_eq_true, List.contains_iff_mem] at h
  exact h.imp_left And.right

/-- What comes of a rule in a segment comes of it on another source. -/
def Recurs (source' : Source TokenKind) (trace : Bool) (stop : Nat) (rule : TokenRule) (i : Nat) :
    Outcome → Prop
  | .matched _ j => j ≤ stop ∧ Matches source' (definitions trace) rule false i j
  | .failed _ => Refuses source' (definitions trace) rule false i
  | .aborted _ => True

theorem Recurs.imp {rule' : TokenRule} (h : Recurs source' trace stop rule i o)
    (hmatches : ∀ j, Matches source' (definitions trace) rule false i j →
      Matches source' (definitions trace) rule' false i j)
    (hrefuses : Refuses source' (definitions trace) rule false i →
      Refuses source' (definitions trace) rule' false i) : Recurs source' trace stop rule' i o := by
  cases o with
  | matched v j => exact h.imp_right (hmatches j)
  | failed f => exact hrefuses h
  | aborted cause => trivial

namespace Segment

theorem le_of_enclosures (h : Segment source trace start stop) (hrule : rule ∈ enclosures trace)
    (hstart : start ≤ i) (hi : i ≤ stop)
    (hmatch : Matches source (definitions trace) rule false i j) : j ≤ stop := by
  obtain ⟨b, hencloses, htypes⟩ := encloses_of_mem hrule
  by_cases hb : b = .angle
  · exact h.typeArguments hstart hi (htypes hb ▸ hmatch)
  · exact h.le_of_encloses hencloses hb hstart hi hmatch

theorem recurs_enclosures (h : Segment source trace start stop)
    (h' : Segment source' trace start stop) (hshares : source.Shares source' start stop)
    (hrule : rule ∈ enclosures trace) (hstart : start ≤ i) (hi : i ≤ stop)
    (hd : Derives source (definitions trace) d rule false i o) :
    Recurs source' trace stop rule i o := by
  have hlast := h.lt_last
  have hlast' := h'.lt_last
  obtain ⟨b, hencloses, -⟩ := encloses_of_mem hrule
  cases o with
  | matched v j =>
      have hj := h.le_of_enclosures hrule hstart hi ⟨d, v, hd⟩
      exact ⟨hj, hencloses.matches_shared h.marked h'.marked hshares (by omega) (by omega) hstart hj
        (by omega) ⟨d, v, hd⟩⟩
  | failed f =>
      have hdecided : (∃ j, Matches source' (definitions trace) rule false i j) ∨
          Refuses source' (definitions trace) rule false i :=
        matches_or_refuses h'.marked hencloses.refersTo (isFatal_enclosures trace rule hrule)
          (by omega)
      rcases hdecided with ⟨j, hmatch⟩ | hnone
      · -- the same match would be found in the segment
        have hj := h'.le_of_enclosures hrule hstart hi hmatch
        have hback := hencloses.matches_shared h'.marked h.marked hshares.symm (by omega) (by omega)
          hstart hj (by omega) hmatch
        exact absurd ⟨d, f, hd⟩ (hback.not_refuses (by omega))
      · exact hnone
  | aborted cause => trivial

theorem lt_of_kind (h : Segment source trace start stop) (hi : i ≤ stop)
    (hkind : (source.lexeme i).kind ∉ [TokenKind.comma, .rightParen]) : i < stop := by
  apply Nat.lt_of_le_of_ne hi
  rintro rfl
  exact hkind h.ends

theorem lt_of_isWord (h : Segment source trace start stop) (hi : i ≤ stop)
    (hword : (source.lexeme i).isWord = true) : i < stop := by
  apply h.lt_of_kind hi
  rw [h.marked.word i hword]
  decide

theorem next_eq (h : Segment source trace start stop) (hi : i < stop) : source.next i = i + 1 :=
  Source.next_of_lt (Nat.lt_trans hi h.lt_last)

theorem next_shared (h : Segment source trace start stop) (h' : Segment source' trace start stop)
    (hi : i < stop) : source.next i ≤ stop ∧ source.next i = source'.next i := by
  rw [h.next_eq hi, h'.next_eq hi]
  exact ⟨hi, rfl⟩

/-- Rules that are no lists decide alike on two sources with the same segment. -/
theorem recurs (h : Segment source trace start stop) (h' : Segment source' trace start stop)
    (hshares : source.Shares source' start stop)
    (hd : Derives source (definitions trace) d rule m i o) :
    m = false → selfContained trace rule = true → start ≤ i → i ≤ stop →
      Recurs source' trace stop rule i o := by
  -- brackets are taken as a whole, and any other rule ends in the segment as its parts do
  induction hd with
  | @token kind _ i hkind =>
      rintro rfl hrule hstart hi
      have hlt := h.lt_of_kind hi (by simpa [selfContained, opensBracket, hkind] using hrule)
      obtain ⟨hle, hnext⟩ := h.next_shared h' hlt
      exact ⟨hle, matches_token.2 ⟨(hshares i hstart hlt).kind ▸ hkind, hnext⟩⟩
  | @noToken kind _ i hkind =>
      rintro rfl hrule hstart hi
      refine refuses_token.2 fun hkind' => hkind ?_
      have hlt := h'.lt_of_kind hi (by simpa [selfContained, opensBracket, hkind'] using hrule)
      exact (hshares i hstart hlt).kind.trans hkind'
  | @word _ i hword =>
      rintro rfl - hstart hi
      have hlt := h.lt_of_isWord hi hword
      obtain ⟨hle, hnext⟩ := h.next_shared h' hlt
      exact ⟨hle, matches_word.2 ⟨(hshares i hstart hlt).isWord ▸ hword, hnext⟩⟩
  | @noWord _ i hword =>
      rintro rfl - hstart hi
      refine refuses_word.2 (Bool.eq_false_iff.2 fun hword' => ?_)
      have hlt := h'.lt_of_isWord hi hword'
      exact Bool.eq_false_iff.1 hword ((hshares i hstart hlt).isWord.trans hword')
  | @keyword text _ i hword =>
      rintro rfl - hstart hi
      have hlt := h.lt_of_isWord hi hword.1
      have hlooks := hshares i hstart hlt
      obtain ⟨hle, hnext⟩ := h.next_shared h' hlt
      exact ⟨hle, matches_keyword.2 ⟨⟨hlooks.isWord ▸ hword.1, hlooks.text ▸ hword.2⟩, hnext⟩⟩
  | @noKeyword text _ i hword =>
      rintro rfl - hstart hi
      refine refuses_keyword.2 fun hword' => hword ?_
      have hlooks := hshares i hstart (h'.lt_of_isWord hi hword'.1)
      exact ⟨hlooks.isWord.trans hword'.1, hlooks.text.trans hword'.2⟩
  | nothing => exact fun _ _ _ hi => ⟨hi, matches_nothing.2 rfl⟩
  | andThen hfirst hsecond ihfirst ihsecond =>
      rintro rfl hrule hstart hi
      rcases selfContained_andThen hrule with hmem | ⟨hrule, hrule'⟩
      · exact h.recurs_enclosures h' hshares hmem hstart hi (.andThen hfirst hsecond)
      · have hij := (hfirst.bounds (Nat.le_trans hi (Nat.le_of_lt h.lt_last)) _ rfl).1
        obtain ⟨hj, hfirst'⟩ := ihfirst rfl hrule hstart hi
        obtain ⟨hk, hsecond'⟩ := ihsecond rfl hrule' (Nat.le_trans hstart hij) hj
        exact ⟨hk, matches_andThen.2 ⟨_, hfirst', hsecond'⟩⟩
  | andThenFirst hfirst ih =>
      rintro rfl hrule hstart hi
      rcases selfContained_andThen hrule with hmem | ⟨hrule, -⟩
      · exact h.recurs_enclosures h' hshares hmem hstart hi (.andThenFirst hfirst)
      · exact refuses_andThen.2 (.inl (ih rfl hrule hstart hi))
  | andThenSecond hfirst hsecond ihfirst ihsecond =>
      rintro rfl hrule hstart hi
      rcases selfContained_andThen hrule with hmem | ⟨hrule, hrule'⟩
      · exact h.recurs_enclosures h' hshares hmem hstart hi (.andThenSecond hfirst hsecond)
      · have hij := (hfirst.bounds (Nat.le_trans hi (Nat.le_of_lt h.lt_last)) _ rfl).1
        obtain ⟨hj, hfirst'⟩ := ihfirst rfl hrule hstart hi
        exact refuses_andThen.2 (.inr ⟨_, hfirst', ihsecond rfl hrule' (Nat.le_trans hstart hij) hj⟩)
  | orElseFirst _ ih =>
      rintro rfl hrule hstart hi
      obtain ⟨hrule, -⟩ := selfContained_orElse hrule
      obtain ⟨hj, hmatch⟩ := ih rfl hrule hstart hi
      exact ⟨hj, matches_orElse.2 (.inl hmatch)⟩
  | orElseSecond _ _ ihfirst ihsecond =>
      rintro rfl hrule hstart hi
      obtain ⟨hrule, hrule'⟩ := selfContained_orElse hrule
      obtain ⟨hj, hmatch⟩ := ihsecond rfl hrule' hstart hi
      exact ⟨hj, matches_orElse.2 (.inr ⟨ihfirst rfl hrule hstart hi, hmatch⟩)⟩
  | orElseNeither _ _ ihfirst ihsecond =>
      rintro rfl hrule hstart hi
      obtain ⟨hrule, hrule'⟩ := selfContained_orElse hrule
      exact refuses_orElse.2 ⟨ihfirst rfl hrule hstart hi, ihsecond rfl hrule' hstart hi⟩
  | optional _ ih =>
      intro hm hrule hstart hi
      obtain ⟨hj, hmatch⟩ := ih hm hrule hstart hi
      exact ⟨hj, matches_optional.2 (.inl hmatch)⟩
  | optionalNone _ ih =>
      exact fun hm hrule hstart hi => ⟨hi, matches_optional.2 (.inr ⟨ih hm hrule hstart hi, rfl⟩)⟩
  | manyNone _ ih =>
      exact fun hm hrule hstart hi => ⟨hi, (ih hm hrule hstart hi).matches_many⟩
  | manyIdle _ ih =>
      intro hm hrule hstart hi
      obtain ⟨-, d, v, hpart⟩ := ih hm hrule hstart hi
      exact ⟨hi, _, _, .manyIdle hpart⟩
  | manyMore hpart hne _ ihpart ihrest =>
      intro hm hrule hstart hi
      have hij := (hpart.bounds (Nat.le_trans hi (Nat.le_of_lt h.lt_last)) _ rfl).1
      obtain ⟨hj, hpart'⟩ := ihpart hm hrule hstart hi
      obtain ⟨hk, hrest'⟩ := ihrest hm hrule (Nat.le_trans hstart hij) hj
      exact ⟨hk, hpart'.matches_many hne hrest'⟩
  | ahead _ ih =>
      intro hm hrule hstart hi
      obtain ⟨-, d, v, hpart⟩ := ih hm hrule hstart hi
      exact ⟨hi, _, _, .ahead hpart⟩
  | aheadNone _ ih =>
      intro hm hrule hstart hi
      obtain ⟨d, f, hpart⟩ := ih hm hrule hstart hi
      exact ⟨_, _, .aheadNone hpart⟩
  | notAhead _ ih =>
      exact fun hm hrule hstart hi => ⟨hi, matches_notAhead.2 ⟨ih hm hrule hstart hi, rfl⟩⟩
  | notAheadSome _ ih =>
      exact fun hm hrule hstart hi => refuses_notAhead.2 ⟨_, (ih hm hrule hstart hi).2⟩
  | lineBreak _ => exact fun hm => nomatch hm
  | noLineBreak _ =>
      rintro rfl - - -
      exact refuses_lineBreak.2 rfl
  | fail hreason => exact fun _ _ _ _ => refuses_fail hreason
  | @traced name part m i d o hpart ih =>
      rintro rfl hrule hstart hi
      rcases selfContained_traced hrule with hmem | hrule
      · exact h.recurs_enclosures h' hshares hmem hstart hi (.traced hpart)
      · exact (ih rfl hrule hstart hi).imp (fun _ => matches_traced.2) refuses_traced.2
  | ref hbody _ ih =>
      intro hm _ hstart hi
      obtain ⟨nonterminal, -, rfl⟩ := exists_of_body? hbody
      exact (ih hm (selfContained_body nonterminal trace) hstart hi).imp
        (fun _ => (matches_ref hbody).2) (refuses_ref hbody).2
  | newlines _ _ | any | failNext _ | endPoint _ _ | endPointNone _ _ =>
      exact fun _ hrule => nomatch hrule

theorem matches_shared (h : Segment source trace start stop)
    (h' : Segment source' trace start stop) (hshares : source.Shares source' start stop)
    (hrule : selfContained trace rule = true) (hstart : start ≤ i) (hi : i ≤ stop)
    (hmatch : Matches source (definitions trace) rule false i j) :
    Matches source' (definitions trace) rule false i j := by
  obtain ⟨d, v, hd⟩ := hmatch
  exact (h.recurs h' hshares hd rfl hrule hstart hi).2

end Segment
end AnnotationScan.Grammar
