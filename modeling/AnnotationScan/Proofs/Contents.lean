import AnnotationScan.Proofs.Significance

/-!
# What annotations are made of

No annotation contains a token that no rule takes, such as the start of a declaration or malformed
input.  The word `class` occurs in it as the name of a member only: directly behind a sign of access
that is part of the annotation as well.
-/

namespace AnnotationScan

open Peg

namespace Grammar

def accessSigns : List TokenKind := [.colonColon, .dot, .safeDot]

/-- Whether a match of a rule certainly ends in a sign of access, if the tokens in front of it do as
`before` tells.  There is no answer if the rule may take the word `class` elsewhere. -/
def accessBehind? : (before : Bool) → TokenRule → Option Bool
  | before, .token kind =>
    if kind = .classKeyword ∧ before = false then none else some (accessSigns.contains kind)
  | _, .word | _, .keyword _ | _, .ref _ => some false
  | before, .nothing | before, .lineBreak | before, .ahead _ | before, .notAhead _
  | before, .fail _ | before, .failNext _ => some before
  | before, .andThen first second =>
    match accessBehind? before first with
    | some between => accessBehind? between second
    | none => none
  | before, .orElse first second =>
    match accessBehind? before first, accessBehind? before second with
    | some after, some after' => some (after && after')
    | _, _ => none
  | before, .optional part =>
    match accessBehind? before part with
    | some after => some (before && after)
    | none => none
  | _, .many part =>
    match accessBehind? false part with
    | some _ => some false
    | none => none
  | before, .newlines _ part | before, .traced _ part | before, .endPoint part =>
    accessBehind? before part
  | _, .any => none

section

variable {before after : Bool} {first second part : TokenRule}

theorem accessBehind?_andThen (h : accessBehind? before (.andThen first second) = some after) :
    ∃ between, accessBehind? before first = some between ∧
      accessBehind? between second = some after := by
  rw [accessBehind?] at h
  split at h
  case h_1 between hbetween => exact ⟨between, hbetween, h⟩
  case h_2 => cases h

theorem accessBehind?_orElse (h : accessBehind? before (.orElse first second) = some after) :
    (∃ b, accessBehind? before first = some b ∧ (after = true → b = true)) ∧
      ∃ b, accessBehind? before second = some b ∧ (after = true → b = true) := by
  rw [accessBehind?] at h
  split at h
  case h_1 b b' hfirst hsecond =>
    obtain rfl := Option.some.inj h
    exact ⟨⟨b, hfirst, fun hboth => (Bool.and_eq_true_iff.1 hboth).1⟩,
      ⟨b', hsecond, fun hboth => (Bool.and_eq_true_iff.1 hboth).2⟩⟩
  case h_2 => cases h

theorem accessBehind?_optional (h : accessBehind? before part.optional = some after) :
    (after = true → before = true) ∧
      ∃ b, accessBehind? before part = some b ∧ (after = true → b = true) := by
  rw [accessBehind?] at h
  split at h
  case h_1 b hpart =>
    obtain rfl := Option.some.inj h
    exact ⟨fun hboth => (Bool.and_eq_true_iff.1 hboth).1,
      b, hpart, fun hboth => (Bool.and_eq_true_iff.1 hboth).2⟩
  case h_2 => cases h

theorem accessBehind?_many (h : accessBehind? before part.many = some after) :
    after = false ∧ ∃ b, accessBehind? false part = some b := by
  rw [accessBehind?] at h
  split at h
  case h_1 b hpart => exact ⟨(Option.some.inj h).symm, b, hpart⟩
  case h_2 => cases h

end

theorem accessBehind?_body (nonterminal : Nonterminal) (trace : Bool) :
    (accessBehind? false (nonterminal.body trace)).isSome = true := by
  revert trace
  cases nonterminal <;> decide

theorem accessBehind?_entry (settings : Settings) (entry : Entry) :
    (accessBehind? false ((Recognizer.build settings).rule entry)).isSome = true := by
  apply rule_cases (P := fun rule => (accessBehind? false rule).isSome = true)
  · decide
  · decide

/-- A sign of access was taken in front of the token `j`, behind `start`. -/
def Accessed (source : Source TokenKind) (start j : Nat) : Prop :=
  start < j ∧ (source.lexeme (j - 1)).kind ∈ accessSigns

/-- Every word `class` from `i` up to `j` names a member; where `after` is set, the last token is a
sign of access. -/
structure NamesMembers (source : Source TokenKind) (start i j : Nat) (after : Bool) : Prop where
  inside : ∀ k, i ≤ k → k < j → (source.lexeme k).kind = .classKeyword → Accessed source start k
  behind : after = true → Accessed source start j

namespace NamesMembers

variable {source : Source TokenKind} {start i j k : Nat} {after after' : Bool}

theorem nothing (h : after = true → Accessed source start i) :
    NamesMembers source start i i after where
  inside _ hik hki := absurd hki (Nat.not_lt.2 hik)
  behind := h

theorem trans (h : NamesMembers source start i j after)
    (h' : NamesMembers source start j k after') : NamesMembers source start i k after' where
  inside l hil hlk hclass := by
    rcases Nat.lt_or_ge l j with hlj | hjl
    · exact h.inside l hil hlj hclass
    · exact h'.inside l hjl hlk hclass
  behind := h'.behind

theorem weaken (h : NamesMembers source start i j after) (hle : after' = true → after = true) :
    NamesMembers source start i j after' where
  inside := h.inside
  behind hafter' := h.behind (hle hafter')

theorem one (hsource : source.Marked) (hi : i ≤ source.last) (hstart : start ≤ i)
    (hclass : (source.lexeme i).kind = .classKeyword → Accessed source start i) :
    NamesMembers source start i (source.next i) (accessSigns.contains (source.lexeme i).kind) where
  inside k hik hk hkind := by
    have hnext : source.next i ≤ i + 1 := Nat.min_le_left _ _
    obtain rfl : k = i := by omega
    exact hclass hkind
  behind hsign := by
    rw [List.contains_iff_mem] at hsign
    have hlt : i < source.last := by
      apply hsource.lt_last hi
      intro hend
      rw [hend] at hsign
      exact absurd hsign (by decide)
    rw [Source.next, Nat.min_eq_left hlt]
    exact ⟨Nat.lt_succ_of_le hstart, hsign⟩

end NamesMembers

variable {source : Source TokenKind} {trace : Bool}

theorem namesMembers (hsource : source.Marked) {start d : Nat} {rule : TokenRule} {m : Bool}
    {i : Nat} {o : Outcome} (hd : Derives source (definitions trace) d rule m i o)
    (hi : i ≤ source.last) (hstart : start ≤ i) :
    ∀ {before after}, accessBehind? before rule = some after →
      (before = true → Accessed source start i) → ∀ j, o.stop? = some j →
        NamesMembers source start i j after := by
  -- `before` stays general, as the second part of a sequence starts behind the first one
  induction hd with
  | token hkind =>
      rintro before after h hbefore j ⟨⟩
      rw [accessBehind?, Option.ite_none_left_eq_some] at h
      obtain ⟨hallowed, ⟨⟩⟩ := h
      rw [← hkind] at hallowed ⊢
      apply NamesMembers.one hsource hi hstart
      intro hclass
      apply hbefore
      simpa [hclass] using hallowed
  | word hword =>
      rintro before after ⟨⟩ - j ⟨⟩
      have hkind := hsource.word _ hword
      refine (NamesMembers.one hsource hi hstart fun hclass => ?_).weaken (fun h => nomatch h)
      cases hkind.symm.trans hclass
  | keyword hword =>
      rintro before after ⟨⟩ - j ⟨⟩
      have hkind := hsource.word _ hword.1
      refine (NamesMembers.one hsource hi hstart fun hclass => ?_).weaken (fun h => nomatch h)
      cases hkind.symm.trans hclass
  | nothing | lineBreak _ | ahead _ _ | notAhead _ _ =>
      rintro before after ⟨⟩ hbefore j ⟨⟩
      exact .nothing hbefore
  | andThen hfirst hsecond ihfirst ihsecond =>
      rintro before after h hbefore k ⟨⟩
      obtain ⟨hij, hj⟩ := hfirst.bounds hi _ rfl
      obtain ⟨between, hbetween, hbehind⟩ := accessBehind?_andThen h
      have hfront := ihfirst hi hstart hbetween hbefore _ rfl
      exact hfront.trans
        (ihsecond hj (Nat.le_trans hstart hij) hbehind hfront.behind _ rfl)
  | orElseFirst _ ih =>
      intro before after h hbefore j hj
      obtain ⟨⟨b, hfirst, hle⟩, -⟩ := accessBehind?_orElse h
      exact (ih hi hstart hfirst hbefore j hj).weaken hle
  | orElseSecond _ _ _ ih =>
      intro before after h hbefore j hj
      obtain ⟨-, b, hsecond, hle⟩ := accessBehind?_orElse h
      exact (ih hi hstart hsecond hbefore j hj).weaken hle
  | optional _ ih =>
      rintro before after h hbefore j ⟨⟩
      obtain ⟨-, b, hpart, hle⟩ := accessBehind?_optional h
      exact (ih hi hstart hpart hbefore _ rfl).weaken hle
  | optionalNone _ _ =>
      rintro before after h hbefore j ⟨⟩
      exact .nothing fun hafter => hbefore ((accessBehind?_optional h).1 hafter)
  | manyNone _ _ | manyIdle _ _ =>
      rintro before after h - j ⟨⟩
      obtain ⟨rfl, -⟩ := accessBehind?_many h
      exact .nothing fun hfalse => nomatch hfalse
  | manyMore hpart _ _ ihpart ihrest =>
      rintro before after h - k ⟨⟩
      obtain ⟨hij, hj⟩ := hpart.bounds hi _ rfl
      obtain ⟨rfl, b, hround⟩ := accessBehind?_many h
      -- each round is checked as if no sign stood in front of it
      have hfront := ihpart hi hstart hround (fun hfalse => nomatch hfalse) _ rfl
      exact hfront.trans (ihrest hj (Nat.le_trans hstart hij) (by rwa [accessBehind?] at h ⊢)
        (fun hfalse : false = true => nomatch hfalse) _ rfl)
  | newlines _ ih | traced _ ih => exact fun h => ih hi hstart h
  | endPoint _ ih =>
      rintro before after h hbefore j ⟨⟩
      exact ih hi hstart h hbefore _ rfl
  | ref hbody _ ih =>
      rintro before after ⟨⟩ - j hj
      obtain ⟨nonterminal, -, rfl⟩ := exists_of_body? hbody
      obtain ⟨behind, hbehind⟩ := Option.isSome_iff_exists.1 (accessBehind?_body nonterminal trace)
      apply (ih hi hstart hbehind (fun hfalse => nomatch hfalse) j hj).weaken
      exact fun hfalse => nomatch hfalse
  | any =>
      intro before after h
      cases h
  | _ => exact fun _ _ j hj => nomatch hj

end Grammar

namespace Recognizer

/-- An annotation consists of supported tokens, and each word `class` in it stands directly behind a
sign of access in it. -/
theorem recognized_tokens (settings : Settings) (entry : Entry) (tokens : TokenList)
    (hend : ∃ stop, tokens.tokens.back? = some stop ∧ stop.kind = .endOfInput)
    (cursor : Cursor TokenKind) (h : cursor.Outermost tokens.toSource) (recognized : Recognized)
    (hok : ((build settings).recognize entry cursor).1 = .ok recognized) (place : Nat)
    (hstart : cursor.index ≤ place) (hstop : place < recognized.stop) :
    ∃ token, tokens.get? place = some token ∧ token.kind.isUnsupported = false ∧
      (token.kind = .classKeyword → cursor.index < place ∧
        ∃ sign, tokens.get? (place - 1) = some sign ∧
          sign.kind ∈ [TokenKind.colonColon, .dot, .safeDot]) := by
  obtain ⟨stop, hback, hkind⟩ := hend
  have hsource := TokenList.marked_of_back? hback hkind
  have hsize := TokenList.size_pos_of_back? hback
  obtain ⟨d, hd⟩ := derives_of_recognize h hok
  have hlast := (hd.bounds h.index_le _ rfl).2
  have hplace : place ≤ tokens.toSource.last := Nat.le_trans (Nat.le_of_lt hstop) hlast
  obtain ⟨token, htoken⟩ := TokenList.get?_of_le_last hsize hplace
  obtain ⟨sign, hsign⟩ := TokenList.get?_of_le_last hsize (Nat.le_trans (Nat.sub_le place 1) hplace)
  refine ⟨token, htoken, ?_, fun hclass => ?_⟩
  · have hnests : Grammar.Nests false [] ((build settings).rule entry) [] := by
      cases entry with
      | plain => exact .plainEntry
      | file => exact .fileEntry
    have hnesting := hnests.nesting hsource hd h.index_le _ rfl
    have hsupported := Source.isUnsupported_of_nesting hnesting
      (show place - cursor.index < recognized.stop - cursor.index by omega)
    rw [Nat.add_sub_cancel' hstart, TokenList.lexeme_toSource _ htoken] at hsupported
    exact hsupported
  · have hsome := Grammar.accessBehind?_entry settings entry
    obtain ⟨behind, hbehind⟩ := Option.isSome_iff_exists.1 hsome
    have hnames := Grammar.namesMembers hsource hd h.index_le (Nat.le_refl _) hbehind
      (fun hfalse => nomatch hfalse) _ rfl
    obtain ⟨hlt, haccess⟩ := hnames.inside place hstart hstop (by
      rw [TokenList.lexeme_toSource _ htoken]
      exact hclass)
    rw [TokenList.lexeme_toSource _ hsign] at haccess
    exact ⟨hlt, sign, hsign, haccess⟩

/-- The tokens of an annotation with a class as its argument. -/
def classArgument : TokenList :=
  ⟨"@A(B::class)", #[⟨.atSign, ⟨0, 1⟩, .empty⟩, ⟨.identifier, ⟨1, 2⟩, .empty⟩,
    ⟨.leftParen, ⟨2, 3⟩, .empty⟩, ⟨.identifier, ⟨3, 4⟩, .empty⟩, ⟨.colonColon, ⟨4, 6⟩, .empty⟩,
    ⟨.classKeyword, ⟨6, 11⟩, .empty⟩, ⟨.rightParen, ⟨11, 12⟩, .empty⟩,
    ⟨.endOfInput, ⟨12, 12⟩, .empty⟩]⟩

/-- The word `class` of the argument is found to stand behind two colons. -/
theorem recognized_tokens_classArgument :
    let grammar := build {}
    (grammar.recognize .plain (grammar.cursor classArgument)).1 = .ok ⟨⟨0, 12⟩, 7⟩ ∧
      (∃ token, classArgument.get? 5 = some token ∧ token.kind = .classKeyword) ∧
      ∃ sign, classArgument.get? 4 = some sign ∧
        sign.kind ∈ [TokenKind.colonColon, .dot, .safeDot] := by
  intro grammar
  have hok : (grammar.recognize .plain (grammar.cursor classArgument)).1 = .ok ⟨⟨0, 12⟩, 7⟩ := by
    decide +kernel
  have hend : ∃ stop, classArgument.tokens.back? = some stop ∧ stop.kind = .endOfInput :=
    ⟨_, rfl, rfl⟩
  obtain ⟨token, htoken, -, hclass⟩ := recognized_tokens {} .plain classArgument hend
    (grammar.cursor classArgument) (cursor_outermost grammar classArgument) _ hok 5
    (Nat.zero_le 5) (by decide)
  obtain rfl : (⟨.classKeyword, ⟨6, 11⟩, .empty⟩ : Token) = token := Option.some.inj htoken
  exact ⟨hok, ⟨_, htoken, rfl⟩, (hclass rfl).2⟩

end Recognizer
end AnnotationScan
