import AnnotationScan.Proofs.Grammar.Nesting

/-!
# Last tokens

Which kinds the last token of a match may have.  The last token of a type is a name or closes its
arguments, and the last one of an annotation closes its arguments or its list, or is that of a type.
-/

namespace AnnotationScan.Grammar

open Peg

/-- `EndsIn kinds takes rule`: if a match of the rule takes tokens, the kind of the last one is among
`kinds`; where `takes` is set, it takes some. -/
inductive EndsIn (kinds : List TokenKind) : (takes : Bool) → TokenRule → Prop
  | token {kind : TokenKind} (h : kind ∈ kinds) : EndsIn kinds true (.token kind)
  | word (h : .identifier ∈ kinds) : EndsIn kinds true .word
  | keyword {text : String} (h : .identifier ∈ kinds) : EndsIn kinds true (.keyword text)
  | nothing : EndsIn kinds false .nothing
  | notAhead {part : TokenRule} : EndsIn kinds false (.notAhead part)
  | last {first second : TokenRule} (h : EndsIn kinds true second) :
      EndsIn kinds true (.andThen first second)
  | andThen {takes : Bool} {first second : TokenRule} (hfirst : EndsIn kinds takes first)
      (hsecond : EndsIn kinds false second) : EndsIn kinds takes (.andThen first second)
  | orElse {takes : Bool} {first second : TokenRule} (hfirst : EndsIn kinds takes first)
      (hsecond : EndsIn kinds takes second) : EndsIn kinds takes (.orElse first second)
  | optional {takes : Bool} {part : TokenRule} (h : EndsIn kinds takes part) :
      EndsIn kinds false (.optional part)
  | many {takes : Bool} {part : TokenRule} (h : EndsIn kinds takes part) :
      EndsIn kinds false (.many part)
  | traced {takes : Bool} {name : String} {part : TokenRule} (h : EndsIn kinds takes part) :
      EndsIn kinds takes (.traced name part)

/-- A match from `i` up to `j` ends in one of the kinds, or takes no tokens where it need not. -/
def LastAmong (source : Source TokenKind) (kinds : List TokenKind) (takes : Bool) (i j : Nat) :
    Prop :=
  j = i ∧ takes = false ∨ i < j ∧ (source.lexeme (j - 1)).kind ∈ kinds

namespace LastAmong

variable {source : Source TokenKind} {kinds : List TokenKind} {takes : Bool} {i j k : Nat}

theorem le (h : LastAmong source kinds takes i j) : i ≤ j := by
  rcases h with ⟨rfl, -⟩ | ⟨hlt, -⟩
  · exact Nat.le_refl j
  · exact Nat.le_of_lt hlt

theorem weaken (h : LastAmong source kinds takes i j) : LastAmong source kinds false i j := by
  rcases h with ⟨rfl, -⟩ | h
  · exact .inl ⟨rfl, rfl⟩
  · exact .inr h

theorem self : LastAmong source kinds false i i := .inl ⟨rfl, rfl⟩

theorem trans (h : LastAmong source kinds takes i j) (h' : LastAmong source kinds false j k) :
    LastAmong source kinds takes i k := by
  rcases h' with ⟨rfl, -⟩ | ⟨hlt, hkind⟩
  · exact h
  · exact .inr ⟨Nat.lt_of_le_of_lt h.le hlt, hkind⟩

theorem last (hij : i ≤ j) (h : LastAmong source kinds true j k) :
    LastAmong source kinds true i k := by
  rcases h with ⟨-, hfalse⟩ | ⟨hlt, hkind⟩
  · cases hfalse
  · exact .inr ⟨Nat.lt_of_le_of_lt hij hlt, hkind⟩

theorem next (hsource : source.Marked) (hi : i ≤ source.last)
    (hread : (source.lexeme i).kind.isUnsupported = false)
    (hkind : (source.lexeme i).kind ∈ kinds) : LastAmong source kinds true i (source.next i) := by
  have hlt : i < source.last := by
    apply hsource.lt_last hi
    intro hend
    rw [hend] at hread
    cases hread
  rw [Source.next, Nat.min_eq_left hlt]
  exact .inr ⟨Nat.lt_succ_self i, hkind⟩

end LastAmong

namespace EndsIn

variable {source : Source TokenKind} {trace : Bool} {kinds : List TokenKind} {takes : Bool}
  {rule : TokenRule}

theorem lastAmong (hsource : source.Marked) (hkinds : kinds.all (!·.isUnsupported) = true)
    {d : Nat} {m : Bool} {i : Nat} {o : Outcome}
    (hd : Derives source (definitions trace) d rule m i o) (hi : i ≤ source.last) :
    ∀ {takes}, EndsIn kinds takes rule → ∀ j, o.stop? = some j →
      LastAmong source kinds takes i j := by
  have hnext : ∀ {i kind}, i ≤ source.last → (source.lexeme i).kind = kind → kind ∈ kinds →
      LastAmong source kinds true i (source.next i) := by
    rintro i kind hi rfl hmem
    have hsupported := List.all_eq_true.1 hkinds _ hmem
    exact .next hsource hi (by simpa using hsupported) hmem
  -- a part that takes nothing leaves the last token to the part in front of it
  induction hd with
  | token hkind =>
      intro takes hn j hj
      cases hj
      cases hn with
      | token hmem => exact hnext hi hkind hmem
  | word hword =>
      intro takes hn j hj
      cases hj
      cases hn with
      | word hmem => exact hnext hi (hsource.word _ hword) hmem
  | keyword hword =>
      intro takes hn j hj
      cases hj
      cases hn with
      | keyword hmem => exact hnext hi (hsource.word _ hword.1) hmem
  | nothing | notAhead _ _ =>
      intro takes hn j hj
      cases hj
      cases hn
      exact .self
  | andThen hfirst hsecond ihfirst ihsecond =>
      intro takes hn k hk
      obtain ⟨hij, hj⟩ := hfirst.bounds hi _ rfl
      cases hk
      cases hn with
      | last h => exact .last hij (ihsecond hj h _ rfl)
      | andThen hfirst' hsecond' =>
          exact (ihfirst hi hfirst' _ rfl).trans (ihsecond hj hsecond' _ rfl)
  | orElseFirst _ ih =>
      intro takes hn j hj
      cases hn with
      | orElse hfirst _ => exact ih hi hfirst j hj
  | orElseSecond _ _ _ ih =>
      intro takes hn j hj
      cases hn with
      | orElse _ hsecond => exact ih hi hsecond j hj
  | optional _ ih =>
      intro takes hn j hj
      cases hj
      cases hn with
      | optional h => exact (ih hi h _ rfl).weaken
  | manyMore hpart _ _ ihpart ihrest =>
      intro takes hn k hk
      obtain ⟨-, hj⟩ := hpart.bounds hi _ rfl
      cases hk
      cases hn with
      | many h => exact (ihpart hi h _ rfl).weaken.trans (ihrest hj (.many h) _ rfl)
  | optionalNone _ _ | manyNone _ _ | manyIdle _ _ =>
      intro takes hn j hj
      cases hj
      cases hn
      exact .self
  | traced _ ih =>
      intro takes hn j hj
      cases hn with
      | traced h => exact ih hi h j hj
  | lineBreak _ | ahead _ _ | newlines _ _ | any | endPoint _ _ | ref _ _ _ =>
      intro takes hn
      cases hn
  | _ =>
      intro takes _ j hj
      cases hj

theorem choice {rules : List TokenRule} (hne : rules ≠ [])
    (h : ∀ rule ∈ rules, EndsIn kinds takes rule) : EndsIn kinds takes (Rule.choice rules) := by
  induction rules with
  | nil => exact absurd rfl hne
  | cons rule rules ih =>
      have hrule := h rule List.mem_cons_self
      cases rules with
      | nil => exact hrule
      | cons next rules =>
          exact .orElse hrule (ih (by simp) fun r hr => h r (List.mem_cons_of_mem rule hr))

theorem named {name : String} (h : EndsIn kinds takes rule) :
    EndsIn kinds takes (Grammar.named trace name rule) := by
  unfold Grammar.named
  split
  · exact .traced h
  · exact h

theorem keywordAmong {words : List String} (hname : .identifier ∈ kinds) (hne : words ≠ []) :
    EndsIn kinds true (Grammar.keywordAmong words) := by
  refine choice (by simpa using hne) fun rule hrule => ?_
  obtain ⟨word, -, rfl⟩ := List.mem_map.1 hrule
  exact .keyword hname

theorem targetPrefix : EndsIn [.colon] true Grammar.targetPrefix :=
  .last (.andThen (.token List.mem_cons_self) .nothing)

def typeKinds : List TokenKind := [.identifier, .greater]

def annotationKinds : List TokenKind := [.identifier, .greater, .rightParen, .rightBracket]

section

variable (hname : .identifier ∈ kinds) (hgreater : .greater ∈ kinds)
include hname hgreater

theorem simpleUserType : EndsIn kinds true (Grammar.simpleUserType trace) := by
  have harguments : EndsIn kinds true (Grammar.typeArguments trace) :=
    named (.last (.last (.andThen (.token hgreater) .nothing)))
  exact named (.andThen (.word hname) (.andThen (.optional harguments) .nothing))

theorem userType : EndsIn kinds true (Grammar.userType trace) := by
  have hsimple : EndsIn kinds true (Grammar.simpleUserType trace) := simpleUserType hname hgreater
  exact named (.andThen hsimple (.andThen (.many (.last (.andThen hsimple .nothing))) .nothing))

end

theorem annotationUnescaped : EndsIn annotationKinds true (Grammar.annotationUnescaped trace) := by
  have htype : EndsIn annotationKinds true (Grammar.userType trace) :=
    userType (by decide) (by decide)
  have harguments : EndsIn annotationKinds true (Grammar.valueArguments trace) :=
    named (.last (.last (.andThen (.token (by decide)) .nothing)))
  have hsameLine : EndsIn annotationKinds true (onSameLine (Grammar.valueArguments trace)) :=
    .last (.andThen harguments .nothing)
  exact named (.orElse (named (.last (.andThen hsameLine .nothing)))
    (.andThen htype (.andThen .notAhead .nothing)))

theorem plainEntry : EndsIn annotationKinds true (Grammar.plainEntry trace) := by
  have hlist : EndsIn annotationKinds true (Grammar.annotationList trace) :=
    .last (.last (.andThen (.token (by decide)) .nothing))
  have hbare : EndsIn annotationKinds true (Grammar.annotationUnescaped trace) :=
    annotationUnescaped
  have hsingle : EndsIn annotationKinds true (Grammar.annotationSingle trace) := by
    refine named (.last (.andThen (.orElse ?_ ?_) .nothing))
    · exact .last (.andThen hbare .nothing)
    · exact .last (.andThen hbare .nothing)
  have hmulti : EndsIn annotationKinds true (Grammar.annotationMulti trace) :=
    named (.last (.last (.andThen hlist .nothing)))
  exact named (.orElse hsingle hmulti)

end EndsIn
end AnnotationScan.Grammar
