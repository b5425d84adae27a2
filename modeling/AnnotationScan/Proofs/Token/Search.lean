import AnnotationScan.Proofs.Token.Sources
import Mathlib.Data.Nat.Find

/-!
# Searching for a token by its offset

The tokens of a text start one behind the other and the mark of the end is the last of them.  So the
search by halves finds the first token that starts at or after an offset, or the mark of the end.
-/

namespace AnnotationScan

namespace Piece

theorem kind_ne_endOfInput {reader : Reader} (h : reader ∈ readers) {cs : List Char}
    {reading : PieceKind × Nat} (hreading : reader cs = some reading) :
    reading.1 ≠ .token .endOfInput := by
  have hform : ∀ (kind : PieceKind) (form : Form), kind ≠ .token .endOfInput →
      ofForm kind form cs = some reading → reading.1 ≠ .token .endOfInput := by
    intro kind form hkind hread
    obtain ⟨n, -, rfl⟩ := ofForm_eq_some.1 hread
    exact hkind
  have hspelled : ∀ kind ∈ TokenKind.hardKeywords ++ TokenKind.signs, spelled kind cs = some reading →
      reading.1 ≠ .token .endOfInput := by
    intro kind hkind hread
    refine hform (.token kind) _ ?_ hread
    rintro ⟨⟩
    revert hkind
    decide
  simp only [readers, List.mem_append, List.mem_map, List.mem_cons, List.not_mem_nil, or_false] at h
  rcases h with (((((((rfl | rfl | rfl | rfl) | ⟨kind, hkind, rfl⟩) | rfl | rfl) |
    ⟨form, -, rfl⟩) | ⟨form, -, rfl⟩) | rfl | rfl | rfl) | ⟨kind, hkind, rfl⟩) | rfl
  · exact hform _ _ (by simp) hreading
  · exact hform _ _ (by simp) hreading
  · exact hform _ _ (by simp) hreading
  · unfold blockComment at hreading
    grind
  · have hread := (Option.filter_eq_some_iff.1 hreading).1
    exact hspelled kind (List.mem_append_left _ hkind) hread
  · exact hform _ _ (by simp) hreading
  · exact hform _ _ (by simp) hreading
  · exact hform _ _ (by simp) hreading
  · exact hform _ _ (by simp) hreading
  · exact hform _ _ (by simp) hreading
  · unfold stringLiteral at hreading
    grind
  · unfold rawStringLiteral at hreading
    grind
  · exact hspelled kind (List.mem_append_right _ hkind) hreading
  · exact hform _ _ (by simp) hreading

theorem ofText_ne_endOfInput (cs : List Char) :
    ∀ piece ∈ (ofText cs).toList, piece.kind ≠ .token .endOfInput := by
  induction cs using pieceInduction with
  | nil => exact fun _ hmem => nomatch hmem
  | cons c cs ih =>
      rw [ofText_cons]
      refine List.forall_mem_cons.2 ⟨?_, ih⟩
      change (longest (c :: cs)).1 ≠ _
      rcases longest_mem (c :: cs) with ⟨reader, hreader, hreading⟩ | ⟨-, hlongest⟩
      · exact kind_ne_endOfInput hreader hreading
      · rw [hlongest]
        simp

end Piece

namespace Token

/-- The token starts in front of an offset and is not the mark of the end. -/
def isBefore (offset : Nat) (token : Token) : Bool :=
  token.span.start < offset && token.kind != .endOfInput

theorem isBefore_eq_true {offset : Nat} {token : Token} :
    token.isBefore offset = true ↔ token.span.start < offset ∧ token.kind ≠ .endOfInput := by
  simp [isBefore]

theorem isBefore_eq_false {offset : Nat} {token : Token} :
    token.isBefore offset = false ↔ offset ≤ token.span.start ∨ token.kind = .endOfInput := by
  simp [isBefore, Decidable.or_iff_not_imp_left]

end Token

namespace Tokenized

theorem endOfInput_notMem_addToken {tokens : Array Token} {kind : TokenKind}
    (hkind : kind ≠ .endOfInput) (h : ∀ token ∈ tokens, token.kind ≠ .endOfInput) (span : Span)
    (before : Trivia) : ∀ token ∈ addToken tokens kind span before, token.kind ≠ .endOfInput := by
  intro token hmem
  rcases addToken_cases tokens kind span before with hpush | ⟨front, last, whole, rfl, hjoined, hjoin⟩
  · rw [hpush] at hmem
    rcases Array.mem_push.1 hmem with hmem | rfl
    · exact h token hmem
    · exact hkind
  · rw [hjoin] at hmem
    rcases Array.mem_push.1 hmem with hmem | rfl
    · exact h token (Array.mem_push.2 (.inl hmem))
    · rintro rfl
      unfold TokenKind.joined? at hjoined
      split at hjoined <;> cases hjoined

theorem Progress.endOfInput_notMem_read {progress : Progress} {pieces : List Piece}
    (hpieces : ∀ piece ∈ pieces, piece.kind ≠ .token .endOfInput)
    (h : ∀ token ∈ progress.tokens, token.kind ≠ .endOfInput) :
    ∀ token ∈ (progress.read pieces).tokens, token.kind ≠ .endOfInput := by
  apply List.foldlRecOn (motive := fun progress : Progress =>
    ∀ token ∈ progress.tokens, token.kind ≠ .endOfInput) pieces add h
  rintro ⟨tokens, faults, offset, pending⟩ h ⟨kind, text⟩ hpiece
  cases kind with
  | token kind =>
      exact endOfInput_notMem_addToken (fun hkind => hpieces _ hpiece (congrArg _ hkind)) h _ _
  | fault kind =>
      intro token hmem
      rcases Array.mem_push.1 hmem with hmem | rfl
      · exact h token hmem
      · simp
  | blanks | lineFeed | lineComment | blockComment => exact h

theorem endOfInput_notMem (text : String) :
    ∀ token ∈ (progress text).tokens, token.kind ≠ .endOfInput :=
  Progress.endOfInput_notMem_read (Piece.ofText_ne_endOfInput text.toList) fun _ hmem => nomatch hmem

theorem start_lt {text : String} {i j : Nat} {a b : Token} (hij : i < j)
    (ha : (ofSource text).tokens.get? i = some a) (hb : (ofSource text).tokens.get? j = some b) :
    a.span.start < b.span.start := by
  rw [tokens_ofSource] at ha hb
  obtain ⟨hj, rfl⟩ := Array.getElem?_eq_some_iff.1 hb
  rw [Progress.closed, Array.size_push] at hj
  have hi : i < (progress text).tokens.size := by omega
  change (progress text).closed[i]? = some a at ha
  rw [Progress.closed, Array.getElem?_push_lt hi] at ha
  obtain rfl := Option.some.inj ha
  have hlaid := laid_progress text
  obtain ⟨part, hpart⟩ := hlaid.covers (progress text).tokens[i] (by simp)
  have hbounds := hpart.bounds
  apply Nat.lt_of_lt_of_le hbounds.1
  simp only [Progress.closed, Array.getElem_push]
  split
  case isTrue hlt =>
    have hordered := List.pairwise_iff_getElem.1 hlaid.ordered i j (by simpa) (by simpa) hij
    simpa using hordered
  case isFalse =>
    rw [offset_progress, utf8ByteSize_eq]
    exact hbounds.2

end Tokenized

namespace TokenList

/-- The search by halves finds the place where the tokens change. -/
theorem changeWithin_eq {holds : Token → Bool} {tokens : Array Token} {place : Nat}
    (hplace : ∀ i : Nat, (tokens[i]?).any holds = true ↔ i < place) :
    ∀ steps first size, size ≤ steps → first ≤ place → place ≤ first + size →
      changeWithin holds tokens steps first size = place := by
  intro steps
  induction steps with
  | zero =>
      intro first size hsteps hfirst hsize
      rw [changeWithin]
      omega
  | succ steps ih =>
      intro first size hsteps hfirst hsize
      rw [changeWithin]
      simp only [hplace]
      split
      case isTrue hmany =>
        by_cases hmiddle : first + size / 2 < place
        · rw [if_pos hmiddle]
          exact ih _ _ (by omega) (Nat.le_of_lt hmiddle) (by omega)
        · rw [if_neg hmiddle]
          exact ih _ _ (by omega) hfirst (by omega)
      case isFalse hone =>
        split
        case isTrue hlt => omega
        case isFalse hge => omega

theorem firstAtOrAfter_zero (list : TokenList) : list.firstAtOrAfter 0 = 0 := by
  refine changeWithin_eq (fun i => ?_) _ 0 _ (Nat.le_refl _) (Nat.le_refl 0) (Nat.zero_le _)
  cases list.tokens[i]? <;> simp

end TokenList

namespace Tokenized

/-- Where the first token starts that starts at or after an offset; the end of the text if there is
none. -/
def startAtOrAfter (text : String) (offset : Nat) : Nat :=
  ((ofSource text).tokens.tokens.find? fun token => offset ≤ token.span.start).elim
    text.utf8ByteSize (·.span.start)

theorem get?_eq_endOfInput {text : String} {i : Nat} {token : Token}
    (htoken : (ofSource text).tokens.get? i = some token) (hkind : token.kind = .endOfInput) :
    i = (progress text).tokens.size ∧ token.span.start = text.utf8ByteSize := by
  rw [tokens_ofSource] at htoken
  obtain ⟨hi, rfl⟩ := Array.getElem?_eq_some_iff.1 htoken
  simp only [Progress.closed, Array.getElem_push] at hi hkind ⊢
  rw [Array.size_push] at hi
  split at hkind
  case isTrue hlt => exact absurd hkind (endOfInput_notMem text _ (Array.getElem_mem hlt))
  case isFalse hge =>
    refine ⟨by omega, ?_⟩
    rw [dif_neg hge]
    exact offset_progress text

theorem isBefore_of_lt {text : String} {i j offset : Nat} {a b : Token} (hij : i < j)
    (ha : (ofSource text).tokens.get? i = some a) (hb : (ofSource text).tokens.get? j = some b)
    (h : b.isBefore offset = true) : a.isBefore offset = true := by
  have hstart := start_lt hij ha hb
  have hbound := (Array.getElem?_eq_some_iff.1 hb).1
  rw [tokens_ofSource, Progress.closed, Array.size_push] at hbound
  rw [Token.isBefore_eq_true] at h
  refine eq_true_of_ne_false fun hfalse => ?_
  rcases Token.isBefore_eq_false.1 hfalse with hlate | hkind
  · omega
  · have hlast := (get?_eq_endOfInput ha hkind).1
    omega

theorem exists_place (text : String) (offset : Nat) : ∃ place token,
    (ofSource text).tokens.get? place = some token ∧ token.isBefore offset = false ∧
      ∀ i < place, ∀ a, (ofSource text).tokens.get? i = some a → a.isBefore offset = true := by
  have hend : (ofSource text).tokens.get? (progress text).tokens.size =
      some ⟨.endOfInput, Span.point (progress text).offset, (progress text).pending⟩ := by
    rw [tokens_ofSource, TokenList.get?, Progress.closed, Array.getElem?_push_size]
  have hexists : ∃ i token, (ofSource text).tokens.get? i = some token ∧
      token.isBefore offset = false := ⟨_, _, hend, Bool.and_false _⟩
  obtain ⟨token, htoken, hstop⟩ := Nat.find_spec hexists
  refine ⟨_, token, htoken, hstop, fun i hi a ha => ?_⟩
  refine eq_true_of_ne_false fun hfalse => ?_
  exact Nat.find_min hexists hi ⟨a, ha, hfalse⟩

/-- The search ends at the first token that starts at or after an offset or marks the end. -/
theorem firstAtOrAfter_spec (text : String) (offset : Nat) :
    ∃ token, (ofSource text).tokens.get? ((ofSource text).tokens.firstAtOrAfter offset) = some token ∧
      token.isBefore offset = false ∧ ∀ i < (ofSource text).tokens.firstAtOrAfter offset, ∀ a,
        (ofSource text).tokens.get? i = some a → a.isBefore offset = true := by
  -- the search ends at the change from tokens in front of the offset to the others
  obtain ⟨place, token, htoken, hstop, hbelow⟩ := exists_place text offset
  have hbound := (Array.getElem?_eq_some_iff.1 htoken).1
  have hplace : ∀ i : Nat,
      (((ofSource text).tokens.tokens)[i]?).any (Token.isBefore offset) = true ↔ i < place := by
    intro i
    constructor
    · intro hany
      obtain ⟨a, ha, hbefore⟩ := (Option.any_eq_true _ _).1 hany
      by_contra hge
      rcases Nat.lt_or_eq_of_le (Nat.le_of_not_lt hge) with hlt | rfl
      · rw [isBefore_of_lt hlt htoken ha hbefore] at hstop
        cases hstop
      · obtain rfl := Option.some.inj (htoken.symm.trans ha)
        rw [hbefore] at hstop
        cases hstop
    · intro hi
      have ha := Array.getElem?_eq_getElem (Nat.lt_trans hi hbound)
      exact (Option.any_eq_true _ _).2 ⟨_, ha, hbelow i hi _ ha⟩
  have hfirst : (ofSource text).tokens.firstAtOrAfter offset = place :=
    TokenList.changeWithin_eq hplace _ 0 _ (Nat.le_refl _) (Nat.zero_le _) (by
      rw [Nat.zero_add]
      exact Nat.le_of_lt hbound)
  rw [hfirst]
  exact ⟨token, htoken, hstop, hbelow⟩

/-- The search finds the first token at or after an offset, or the mark of the end. -/
theorem get?_firstAtOrAfter (text : String) (offset : Nat) :
    ((ofSource text).tokens.get? ((ofSource text).tokens.firstAtOrAfter offset)).map
      (·.span.start) = some (startAtOrAfter text offset) := by
  obtain ⟨token, htoken, hstop, hbefore⟩ := firstAtOrAfter_spec text offset
  have hlt : ∀ i < (ofSource text).tokens.firstAtOrAfter offset, ∀ a,
      (ofSource text).tokens.get? i = some a → a.span.start < offset := by
    intro i hi a ha
    exact (Token.isBefore_eq_true.1 (hbefore i hi a ha)).1
  generalize (ofSource text).tokens.firstAtOrAfter offset = place at htoken hlt
  obtain ⟨hplace, hget⟩ := Array.getElem?_eq_some_iff.1 htoken
  rw [htoken, Option.map_some, startAtOrAfter]
  apply congrArg some
  by_cases hle : offset ≤ token.span.start
  · have hfind : (ofSource text).tokens.tokens.find? (fun token => offset ≤ token.span.start) =
        some token := by
      rw [Array.find?_eq_some_iff_getElem]
      refine ⟨decide_eq_true hle, place, hplace, hget, fun i hi => ?_⟩
      have hstart := hlt i hi _ (Array.getElem?_eq_getElem (Nat.lt_trans hi hplace))
      simpa using hstart
    rw [hfind]
    rfl
  · obtain ⟨hlast, hend⟩ := get?_eq_endOfInput htoken ((Token.isBefore_eq_false.1 hstop).resolve_left hle)
    have hfind : (ofSource text).tokens.tokens.find? (fun token => offset ≤ token.span.start) =
        none := by
      rw [Array.find?_eq_none]
      intro other hother
      obtain ⟨i, hi, rfl⟩ := Array.getElem_of_mem hother
      have hi' : i ≤ place := by
        rw [tokens_ofSource] at hi
        rw [hlast]
        exact Nat.le_of_lt_succ (by simpa [Progress.closed] using hi)
      rcases Nat.lt_or_eq_of_le hi' with hless | rfl
      · have hstart := hlt i hless _ (Array.getElem?_eq_getElem hi)
        simpa using hstart
      · rw [hget]
        simpa using hle
    rw [hfind]
    exact hend

end Tokenized
end AnnotationScan
