import AnnotationScan.Proofs.Exactness

/-!
# Faults and malformed tokens

Each fault of a text belongs to one malformed token and each malformed token to one fault, in the
same order.  So a scan that got stuck on a malformed token tells the fault of that token, and no scan
rejects a text at the place of a malformed token unless nesting was too deep.
-/

namespace AnnotationScan

open Peg

namespace TokenList

def malformed (list : TokenList) : List Token :=
  list.tokens.toList.filter (·.kind = .malformed)

theorem mem_malformed {list : TokenList} {token : Token} :
    token ∈ list.malformed ↔ token ∈ list.tokens ∧ token.kind = .malformed := by
  simp [malformed]

end TokenList

namespace Piece

theorem Shape.kind_ne_malformed {rest text : List Char} {kind : TokenKind}
    (h : Shape rest ⟨.token kind, text⟩) : kind ≠ .malformed := by
  rintro rfl
  cases h with
  | spelled hkind => exact absurd hkind (by decide)
  | unspelled hkind => exact absurd hkind (by decide)

theorem ofText_ne_malformed (cs : List Char) :
    ∀ piece ∈ (ofText cs).toList, piece.kind ≠ .token .malformed := by
  rintro ⟨kind, text⟩ hpiece rfl
  obtain ⟨front, back, hpieces⟩ := List.append_of_mem hpiece
  exact (shape_of_mem hpieces).kind_ne_malformed rfl

end Piece

namespace Tokenized

theorem joined?_ne_malformed {a b whole : TokenKind} (h : a.joined? b = some whole) :
    a ≠ .malformed ∧ whole ≠ .malformed := by
  rcases TokenKind.joined?_cases h with ⟨rfl, -, rfl⟩ | ⟨rfl, -, rfl⟩ | ⟨rfl, -, rfl⟩ <;> decide

theorem filter_addToken (tokens : Array Token) {kind : TokenKind} (hkind : kind ≠ .malformed)
    (span : Span) (before : Trivia) :
    (addToken tokens kind span before).toList.filter (·.kind = .malformed) =
      tokens.toList.filter (·.kind = .malformed) := by
  rcases addToken_cases tokens kind span before with hpush | ⟨front, last, whole, rfl, hjoined, hjoin⟩
  · rw [hpush, Array.toList_push, List.filter_append]
    simp [hkind]
  · obtain ⟨hlast, hwhole⟩ := joined?_ne_malformed hjoined
    rw [hjoin, Array.toList_push, Array.toList_push, List.filter_append, List.filter_append]
    simp [hlast, hwhole]

namespace Progress

/-- The faults found so far are those of the malformed tokens found so far. -/
def Attributed (progress : Progress) : Prop :=
  progress.faults.toList.map (·.span) =
    (progress.tokens.toList.filter (·.kind = .malformed)).map (·.span)

variable {progress : Progress}

theorem Attributed.add (h : progress.Attributed) {piece : Piece}
    (hpiece : piece.kind ≠ .token .malformed) : (progress.add piece).Attributed := by
  obtain ⟨tokens, faults, offset, pending⟩ := progress
  obtain ⟨kind, text⟩ := piece
  unfold Attributed at h ⊢
  cases kind with
  | token kind =>
      have hkind : kind ≠ .malformed := fun heq => hpiece (congrArg _ heq)
      exact h.trans (congrArg _ (filter_addToken tokens hkind _ _).symm)
  | fault kind =>
      dsimp only at h
      simp [Progress.add, h]
  | blanks | lineFeed | lineComment | blockComment => exact h

theorem Attributed.read (h : progress.Attributed) {pieces : List Piece}
    (hpieces : ∀ piece ∈ pieces, piece.kind ≠ .token .malformed) :
    (progress.read pieces).Attributed := by
  apply List.foldlRecOn (motive := Attributed) pieces Progress.add h
  exact fun progress h piece hpiece => h.add (hpieces piece hpiece)

end Progress

/-- The faults are those of the malformed tokens, and each of them is found where its token starts
and nowhere else. -/
structure Attributes (tokenized : Tokenized) : Prop where
  spans : tokenized.faults.toList.map (·.span) = tokenized.tokens.malformed.map (·.span)
  ordered : tokenized.faults.toList.Pairwise fun a b => a.span.start < b.span.start
  own : ∀ token ∈ tokenized.tokens.malformed, ∃ fault ∈ tokenized.faults,
    fault.span = token.span ∧ tokenized.faultAt? token.span.start = some fault
  nowhere_else : ∀ offset, (∀ token ∈ tokenized.tokens.malformed, token.span.start ≠ offset) →
    tokenized.faultAt? offset = none

theorem spans_faults (text : String) :
    (ofSource text).faults.toList.map (·.span) = (ofSource text).tokens.malformed.map (·.span) := by
  have hstart : Progress.Attributed {} := rfl
  have hread : (progress text).Attributed := hstart.read (Piece.ofText_ne_malformed text.toList)
  rw [faults_ofSource, TokenList.malformed, tokens_ofSource, Progress.closed, Array.toList_push,
    List.filter_append]
  simpa [Progress.Attributed] using hread

theorem starts_increase (text : String) :
    (ofSource text).tokens.tokens.toList.Pairwise fun a b => a.span.start < b.span.start := by
  rw [List.pairwise_iff_getElem]
  intro i j hi hj hij
  simp only [Array.length_toList] at hi hj
  exact start_lt hij (Array.getElem?_eq_getElem hi) (Array.getElem?_eq_getElem hj)

theorem starts_faults (text : String) :
    (ofSource text).faults.toList.Pairwise fun a b => a.span.start < b.span.start := by
  have hmalformed : (ofSource text).tokens.malformed.Pairwise fun a b =>
      a.span.start < b.span.start := (starts_increase text).filter _
  have hspans := (List.pairwise_map (f := Token.span)
    (R := fun a b : Span => a.start < b.start)).2 hmalformed
  rw [← spans_faults] at hspans
  exact (List.pairwise_map (f := Fault.span) (R := fun a b : Span => a.start < b.start)).1 hspans

theorem faultAt?_eq_some {tokenized : Tokenized}
    (h : tokenized.faults.toList.Pairwise fun a b => a.span.start < b.span.start) {fault : Fault}
    (hfault : fault ∈ tokenized.faults) :
    tokenized.faultAt? fault.span.start = some fault := by
  obtain ⟨i, hi, hget⟩ := Array.getElem_of_mem hfault
  rw [faultAt?, Array.find?_eq_some_iff_getElem]
  refine ⟨by simp, i, hi, hget, fun j hj => ?_⟩
  have hlt := List.pairwise_iff_getElem.1 h j i (by simp; omega) (by simpa using hi) hj
  simp only [Array.getElem_toList, hget] at hlt
  simpa using Nat.ne_of_lt hlt

theorem attributes_ofSource (text : String) : (ofSource text).Attributes where
  spans := spans_faults text
  ordered := starts_faults text
  own := by
    intro token htoken
    have hspan := List.mem_map_of_mem (f := Token.span) htoken
    rw [← spans_faults] at hspan
    obtain ⟨fault, hfault, heq⟩ := List.mem_map.1 hspan
    have hmem := Array.mem_toList_iff.1 hfault
    exact ⟨fault, hmem, heq, heq ▸ faultAt?_eq_some (starts_faults text) hmem⟩
  nowhere_else := by
    intro offset hnone
    rw [faultAt?, Array.find?_eq_none]
    intro fault hfault hstart
    have hspan := List.mem_map_of_mem (f := Fault.span) (Array.mem_toList_iff.2 hfault)
    rw [spans_faults] at hspan
    obtain ⟨token, htoken, heq⟩ := List.mem_map.1 hspan
    exact hnone token htoken (by simpa [heq] using hstart)

end Tokenized

/-- Failures correspond that are the same and lie at the start of the token where they were seen. -/
def Peg.Likeness.located {κ : Type} (source : Source κ) : Likeness source source where
  failure f g := f = g ∧ f.offset = source.offset f.index
  value := Eq
  failureAt _ _ := ⟨rfl, rfl⟩
  deeper := Failure.deeper_rel (R := fun f g => f = g ∧ f.offset = source.offset f.index)
    fun _ _ h => congrArg _ h.1
  better := Failure.better_rel (R := fun f g => f = g ∧ f.offset = source.offset f.index)
    fun _ _ h => ⟨congrArg _ h.1, congrArg _ h.1⟩
  lexeme := (Likeness.same source).lexeme
  spanFrom := (Likeness.same source).spanFrom
  endPoint := (Likeness.same source).endPoint

namespace Recognizer

theorem offset_of_error {settings : Settings} {entry : Entry} {source : Source TokenKind}
    {cursor : Cursor TokenKind} (h : cursor.Outermost source) {failure : Failure}
    (herror : ((build settings).recognize entry cursor).1 = .error failure) :
    failure.offset = source.offset failure.index := by
  have hself := (build settings).recognize_alike entry (.located source) h h rfl rfl
    (source.alikeFor_self _ _ true h.index_le)
  rw [herror] at hself
  cases hself with
  | error hfailure => exact hfailure.2

open Tokenized

/-- The answer of an entry on a text, and the verdict on the text that is drawn from it: the fault of
a malformed token is told if the parse failed at that token, and only then. -/
structure TellsFaults (tokenized : Tokenized) (answer : Except Failure Recognized)
    (verdict : Verdict) : Prop where
  told : ∀ failure, answer = .error failure → (∀ limit, failure.reason ≠ .depthLimit limit) →
    ∀ token, tokenized.tokens.get? failure.index = some token → token.kind = .malformed →
      ∃ fault ∈ tokenized.faults, fault.span = token.span ∧ verdict = .malformed fault
  own : ∀ fault, verdict = .malformed fault → fault ∈ tokenized.faults ∧
    ∃ failure token, answer = .error failure ∧
      tokenized.tokens.get? failure.index = some token ∧ token.kind = .malformed ∧
      fault.span = token.span
  never_rejected : ∀ reason offset, verdict = .rejected reason offset →
    (∀ limit, reason ≠ .depthLimit limit) →
      ∀ token ∈ tokenized.tokens.malformed, token.span.start ≠ offset

theorem faultBehind?_of_malformed {text : String} {failure : Failure} {token : Token}
    (htoken : (ofSource text).tokens.get? failure.index = some token)
    (hkind : token.kind = .malformed) :
    ∃ fault ∈ (ofSource text).faults, fault.span = token.span ∧
      (ofSource text).faultBehind? failure = some fault := by
  have hmem := TokenList.mem_malformed.2 ⟨Array.mem_of_getElem? htoken, hkind⟩
  obtain ⟨fault, hfault, hspan, hfind⟩ := (attributes_ofSource text).own token hmem
  refine ⟨fault, hfault, hspan, ?_⟩
  rw [faultBehind?, htoken]
  exact (if_pos hkind).trans hfind

/-- A malformed token at the offset of a failure is the token where the failure was seen. -/
theorem get?_of_offset {text : String} {failure : Failure} {token : Token}
    (hoffset : failure.offset = (ofSource text).tokens.toSource.offset failure.index)
    (htoken : token ∈ (ofSource text).tokens.malformed) (hstart : token.span.start = failure.offset) :
    (ofSource text).tokens.get? failure.index = some token := by
  obtain ⟨hmem, hkind⟩ := TokenList.mem_malformed.1 htoken
  obtain ⟨i, hi, hget⟩ := Array.getElem_of_mem hmem
  have hplace : (ofSource text).tokens.get? i = some token := Array.getElem?_eq_some_iff.2 ⟨hi, hget⟩
  by_cases hindex : failure.index < (ofSource text).tokens.size
  · have hseen : (ofSource text).tokens.get? failure.index =
        some (ofSource text).tokens.tokens[failure.index] := Array.getElem?_eq_getElem hindex
    rw [Source.offset, TokenList.lexeme_toSource _ hseen] at hoffset
    have hsame := hstart.trans hoffset
    rcases Nat.lt_trichotomy i failure.index with hlt | rfl | hlt
    · exact absurd hsame (Nat.ne_of_lt (start_lt hlt hplace hseen))
    · exact hplace
    · exact absurd hsame (Nat.ne_of_gt (start_lt hlt hseen hplace))
  · -- behind all tokens the failure would lie at the end, where no malformed token starts
    have hlast : (ofSource text).tokens.toSource.last ≤ failure.index := by
      have hsize := TokenList.last_toSource (ofSource text).tokens
      unfold TokenList.size at hindex
      omega
    have hmarker : (ofSource text).tokens.get? (progress text).tokens.size =
        some ⟨.endOfInput, Span.point (progress text).offset, (progress text).pending⟩ := by
      rw [tokens_ofSource, TokenList.get?, Progress.closed, Array.getElem?_push_size]
    have hbounds := bounds_of_get? hplace (by simp [hkind])
    rw [Source.offset, Source.lexeme_of_last_le _ hlast,
      ← Source.lexeme_of_last_le _ (Nat.le_refl _), last_ofSource,
      TokenList.lexeme_toSource _ hmarker] at hoffset
    have hend : failure.offset = text.utf8ByteSize := hoffset.trans (offset_progress text)
    omega

theorem tellsFaults {text : String} {answer : Except Failure Recognized}
    (hoffset : ∀ failure, answer = .error failure →
      failure.offset = (ofSource text).tokens.toSource.offset failure.index) :
    TellsFaults (ofSource text) answer ((ofSource text).verdict answer) where
  told := by
    rintro failure rfl - token htoken hkind
    obtain ⟨fault, hfault, hspan, hbehind⟩ := faultBehind?_of_malformed htoken hkind
    refine ⟨fault, hfault, hspan, ?_⟩
    rw [verdict, hbehind]
  own := by
    intro fault hverdict
    cases answer with
    | ok recognized => cases hverdict
    | error failure =>
        rw [verdict] at hverdict
        split at hverdict
        case h_2 => cases hverdict
        case h_1 found hbehind =>
          obtain rfl := Verdict.malformed.inj hverdict
          unfold faultBehind? at hbehind
          split at hbehind
          case h_2 => cases hbehind
          case h_1 token htoken =>
            split at hbehind
            case isFalse => cases hbehind
            case isTrue hkind =>
              obtain ⟨own, hown, hspan, hfind⟩ := faultBehind?_of_malformed htoken hkind
              rw [faultBehind?, htoken] at hfind
              obtain rfl := Option.some.inj
                (hbehind.symm.trans ((if_pos hkind).symm.trans hfind))
              exact ⟨hown, failure, token, rfl, htoken, hkind, hspan⟩
  -- a scan that gets stuck at a malformed token finds the fault of the token
  never_rejected := by
    intro reason offset hverdict _ token htoken hstart
    cases answer with
    | ok recognized => cases hverdict
    | error failure =>
        rw [verdict] at hverdict
        split at hverdict
        case h_1 => cases hverdict
        case h_2 hbehind =>
          obtain ⟨rfl, rfl⟩ := Verdict.rejected.inj hverdict
          have hseen := get?_of_offset (hoffset failure rfl) htoken hstart
          obtain ⟨fault, -, -, hsome⟩ :=
            faultBehind?_of_malformed hseen (TokenList.mem_malformed.1 htoken).2
          rw [hbehind] at hsome
          cases hsome

/-- The faults of a text are those of its malformed tokens, and scans tell the fault of the token at
which they got stuck. -/
theorem faults_attributed (settings : Settings) (source : String) :
    let grammar := build settings
    let tokenized := ofSource source
    let list := tokenized.tokens
    tokenized.Attributes ∧
      (∀ offset, TellsFaults tokenized (grammar.recognizeAt list (list.firstAtOrAfter offset))
        (grammar.scanAt source offset)) ∧
      TellsFaults tokenized (grammar.recognize .file (grammar.cursor list)).1
        (grammar.scanFile source) := by
  intro grammar tokenized list
  refine ⟨attributes_ofSource source, fun offset => ?_, ?_⟩
  · exact tellsFaults fun failure herror =>
      offset_of_error (grammar.cursor_moveTo_outermost list _) herror
  · exact tellsFaults fun failure herror => offset_of_error (grammar.cursor_outermost list) herror

end Recognizer
end AnnotationScan
