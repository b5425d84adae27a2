import AnnotationScan.Proofs.Agreement
import AnnotationScan.Proofs.Consumption
import AnnotationScan.Proofs.Peg.Hulls
import AnnotationScan.Proofs.Tiling
import AnnotationScan.Proofs.Token.Spellings

/-!
# What a match covers

A match starts at the first token from the offset on, an at sign, and covers the tokens of the
annotation and the gaps between them.  The scan ends at the token behind it, with nothing but a gap
in between.
-/

namespace AnnotationScan

open Peg

namespace Text

theorem isPrefix_of_byteLength_le {a b cs : List Char} (ha : a <+: cs) (hb : b <+: cs)
    (hle : byteLength a ≤ byteLength b) : a <+: b := by
  rcases List.prefix_or_prefix_of_prefix ha hb with h | ⟨rest, rfl⟩
  · exact h
  · by_cases hrest : rest = []
    · simp [hrest]
    · have hpos := byteLength_pos hrest
      rw [byteLength_append] at hle
      omega

end Text

namespace Grammar

variable {source : Source TokenKind} {d i j : Nat} {m : Bool} {v : Span}

theorem starts_and_spans {settings : Settings} {entry : Entry}
    (h : Derives source (definitions settings.traceRules) d
      ((Recognizer.build settings).rule entry) m i (.matched v j)) :
    (source.lexeme i).kind = .atSign ∧ v = source.spanFrom i j := by
  have hstarts : ∀ {d : Nat} {rest : TokenRule}, Derives source (definitions settings.traceRules) d
      (.andThen (.token .atSign) rest) m i (.matched v j) →
      (source.lexeme i).kind = .atSign ∧ v = source.spanFrom i j := by
    intro d rest hrow
    cases hrow with
    | andThen hfirst _ =>
        cases hfirst with
        | token hkind => exact ⟨hkind, rfl⟩
  cases entry with
  | plain =>
      cases derives_of_named h with
      | orElseFirst hsingle => exact hstarts (derives_of_named hsingle)
      | orElseSecond _ hmulti => exact hstarts (derives_of_named hmulti)
  | file => exact hstarts (derives_of_named h)

end Grammar

namespace Tokenized

variable {source : String} {i j : Nat} {a b : Token}

theorem bounds_of_get? (ha : (ofSource source).tokens.get? i = some a)
    (hkind : a.kind ≠ .endOfInput) :
    a.span.start < a.span.stop ∧ a.span.stop ≤ source.utf8ByteSize := by
  rw [tokens_ofSource, TokenList.get?, Progress.closed] at ha
  rcases Array.mem_push.1 (Array.mem_of_getElem? ha) with hmem | rfl
  · exact bounds_of_mem hmem
  · exact absurd rfl hkind

theorem stop_le_start (hij : i < j) (ha : (ofSource source).tokens.get? i = some a)
    (hb : (ofSource source).tokens.get? j = some b) : a.span.stop ≤ b.span.start := by
  obtain ⟨hi, rfl⟩ := Array.getElem?_eq_some_iff.1 ha
  obtain ⟨hj, rfl⟩ := Array.getElem?_eq_some_iff.1 hb
  have hordered := List.pairwise_iff_getElem.1 (ordered_ofSource source)
  exact hordered i j (by simpa using hi) (by simpa using hj) hij

theorem stop_le_stop (hij : i ≤ j) (ha : (ofSource source).tokens.get? i = some a)
    (hb : (ofSource source).tokens.get? j = some b) (hkind : b.kind ≠ .endOfInput) :
    a.span.stop ≤ b.span.stop := by
  by_cases hone : i = j
  · subst hone
    obtain rfl := Option.some.inj (ha.symm.trans hb)
    exact Nat.le_refl _
  · have hstop := stop_le_start (Nat.lt_of_le_of_ne hij hone) ha hb
    have hbounds := bounds_of_get? hb hkind
    omega

theorem start_le_stop (ha : (ofSource source).tokens.get? i = some a) :
    a.span.start ≤ a.span.stop := by
  rw [tokens_ofSource, TokenList.get?, Progress.closed] at ha
  rcases Array.mem_push.1 (Array.mem_of_getElem? ha) with hmem | rfl
  · exact Nat.le_of_lt (bounds_of_mem hmem).1
  · exact Nat.le_refl _

theorem start_le_size (ha : (ofSource source).tokens.get? i = some a) :
    a.span.start ≤ source.utf8ByteSize := by
  by_cases hkind : a.kind = .endOfInput
  · exact Nat.le_of_eq (get?_eq_endOfInput ha hkind).2
  · have hbounds := bounds_of_get? ha hkind
    omega

/-- The tokens of a text stand in order, and the mark of the end takes no bytes. -/
theorem ordered_toSource (source : String) : (ofSource source).tokens.toSource.Ordered := by
  have hpair : ∀ i < (ofSource source).tokens.toSource.last, ∃ a b,
      (ofSource source).tokens.get? i = some a ∧ (ofSource source).tokens.get? (i + 1) = some b := by
    intro i hi
    rw [TokenList.last_toSource] at hi
    exact ⟨_, _, Array.getElem?_eq_getElem (Nat.lt_of_lt_of_le hi (Nat.sub_le _ 1)),
      Array.getElem?_eq_getElem (Nat.add_lt_of_lt_sub hi)⟩
  constructor
  case start_le =>
    intro i hi
    obtain ⟨a, b, ha, hb⟩ := hpair i hi
    rw [TokenList.lexeme_toSource _ ha, TokenList.lexeme_toSource _ hb]
    exact Nat.le_of_lt (start_lt (Nat.lt_succ_self i) ha hb)
  case stop_le =>
    intro i hi
    obtain ⟨a, b, ha, hb⟩ := hpair i hi
    rw [TokenList.lexeme_toSource _ ha, TokenList.lexeme_toSource _ hb]
    exact Nat.le_trans (stop_le_start (Nat.lt_succ_self i) ha hb) (start_le_stop hb)
  case marker =>
    rw [tokens_ofSource]
    simp [TokenList.toSource, Progress.closed, Span.point]

theorem spanFrom_ofSource (hij : i < j) (ha : (ofSource source).tokens.get? i = some a)
    (hb : (ofSource source).tokens.get? (j - 1) = some b) (hkind : b.kind ≠ .endOfInput) :
    (ofSource source).tokens.toSource.spanFrom i j = ⟨a.span.start, b.span.stop⟩ := by
  have hlexeme := TokenList.lexeme_toSource _ hb
  have hplace := (Array.getElem?_eq_some_iff.1 hb).1
  have hlast : j - 1 < (ofSource source).tokens.toSource.last := by
    refine (marked_ofSource source).lt_last ?_ (by rw [hlexeme]; exact hkind)
    rw [TokenList.last_toSource]
    exact Nat.le_sub_one_of_lt hplace
  rw [(ordered_toSource source).spanFrom_eq_hull (Nat.le_of_lt hij) (by omega), Source.hull,
    if_pos hij, TokenList.lexeme_toSource _ ha, hlexeme]
  rfl

theorem slice_of_atSign (hkind : a.kind = .atSign) (ha : (ofSource source).tokens.get? i = some a)
    (hb : (ofSource source).tokens.get? j = some b) (hle : a.span.stop ≤ b.span.stop) :
    ∃ rest, Text.slice? source a.span.start b.span.stop = some ("@" ++ rest) := by
  obtain ⟨front, gap, own, back, hamong, -, hmakes⟩ := exists_among ha
  obtain ⟨_, _, own', _, hamong', -, -⟩ := exists_among hb
  obtain ⟨before, after, htext, hspan⟩ := hamong.exists_text
  obtain ⟨before', after', htext', hspan'⟩ := hamong'.exists_text
  have hown : own.flatMap (·.text) = ['@'] := by
    have hpieces := hamong.pieces_eq
    rw [← List.append_assoc] at hpieces
    refine Makes.text_of_spelling (hmakes.resolve_right fun hend => ?_) hpieces (by rw [hkind]; rfl)
    rw [hkind] at hend
    cases hend.1
  rw [hown] at htext hspan
  rw [hspan, hspan'] at hle ⊢
  -- the beginning up to the at sign is a beginning of the one up to the end of the other token
  obtain ⟨rest, hrest⟩ := Text.isPrefix_of_byteLength_le ⟨after, htext.symm⟩ ⟨after', htext'.symm⟩ hle
  have hslice := Text.slice?_append before (['@'] ++ rest) after'
  rw [← List.append_assoc, hrest, ← htext', String.ofList_toList, String.ofList_append] at hslice
  exact ⟨.ofList rest, hslice⟩

end Tokenized

/-- The span runs over the tokens from `first` up to `next`, and `stop` is where the latter starts.
The search for the first one began at `offset`. -/
structure ExactMatch (source : String) (offset : Nat) (span : Span) (stop first next : Nat) :
    Prop where
  lt : first < next
  starts : ∃ token, (Tokenized.ofSource source).tokens.get? first = some token ∧
    token.kind = .atSign ∧ token.span.start = span.start
  isFirst : ∀ i token, (Tokenized.ofSource source).tokens.get? i = some token →
    (first ≤ i ↔ offset ≤ token.span.start)
  ends : ∃ token, (Tokenized.ofSource source).tokens.get? (next - 1) = some token ∧
    token.span.stop = span.stop
  stops : ∃ token, (Tokenized.ofSource source).tokens.get? next = some token ∧
    token.span.start = stop ∧ (token.kind = .endOfInput → stop = source.utf8ByteSize)
  gap : ∃ gap parts, Text.slice? source span.stop stop = some gap ∧ Gap gap.toList parts
  slice : ∃ rest, Text.slice? source span.start span.stop = some ("@" ++ rest)
  progress : offset ≤ span.start ∧ span.start < span.stop ∧ span.stop ≤ stop ∧
    stop ≤ source.utf8ByteSize

namespace Recognizer

theorem recognizeAt_of_scanAt {grammar : Recognizer} {source : String} {offset stop : Nat}
    {span : Span} (h : grammar.scanAt source offset = .matched span stop) :
    let list := (Tokenized.ofSource source).tokens
    ∃ next, grammar.recognizeAt list (list.firstAtOrAfter offset) = .ok ⟨span, next⟩ ∧
      stop = (list.get? next).elim span.stop (·.span.start) := by
  intro list
  rw [scanAt] at h
  generalize grammar.recognizeAt _ _ = answer at h ⊢
  cases answer with
  | ok recognized =>
      obtain ⟨rfl, rfl⟩ := Verdict.matched.inj h
      exact ⟨recognized.stop, rfl, rfl⟩
  | error failure =>
      simp only [Tokenized.verdict] at h
      split at h <;> cases h

/-- What is recognized are tokens in a row, of which the first is an at sign. -/
theorem tokens_of_recognize {settings : Settings} {entry : Entry} {source : String}
    {cursor : Cursor TokenKind} (h : cursor.Outermost (Tokenized.ofSource source).tokens.toSource)
    {recognized : Recognized}
    (hok : ((build settings).recognize entry cursor).1 = .ok recognized) :
    let list := (Tokenized.ofSource source).tokens
    cursor.index < recognized.stop ∧ ∃ sign last behind, list.get? cursor.index = some sign ∧
      sign.kind = .atSign ∧ list.get? (recognized.stop - 1) = some last ∧
      last.kind ≠ .endOfInput ∧ list.get? recognized.stop = some behind ∧
      recognized.span = ⟨sign.span.start, last.span.stop⟩ := by
  intro list
  have hsize : list.size = (Tokenized.progress source).tokens.size + 1 :=
    Tokenized.size_ofSource source
  have hend : list.toSource.last = (Tokenized.progress source).tokens.size :=
    Tokenized.last_ofSource source
  have hbound : cursor.index ≤ list.toSource.last := h.index_le
  obtain ⟨d, hd⟩ := derives_of_recognize h hok
  have hlt : cursor.index < recognized.stop := Grammar.lt_of_takes (Tokenized.marked_ofSource source)
    hd hbound (Grammar.takes_entry settings entry) _ rfl
  have hnext : recognized.stop ≤ list.toSource.last := (hd.bounds hbound _ rfl).2
  have hpos : 0 < list.size := by omega
  obtain ⟨sign, hsign⟩ := TokenList.get?_of_le_last hpos hbound
  obtain ⟨last, hlast⟩ := TokenList.get?_of_le_last hpos (Nat.le_trans (Nat.sub_le _ 1) hnext)
  obtain ⟨behind, hbehind⟩ := TokenList.get?_of_le_last hpos hnext
  have hkind : last.kind ≠ .endOfInput := by
    intro hend
    have hplace := (Tokenized.get?_eq_endOfInput hlast hend).1
    omega
  obtain ⟨hsignKind, hvalue⟩ := Grammar.starts_and_spans hd
  rw [TokenList.lexeme_toSource _ hsign] at hsignKind
  refine ⟨hlt, sign, last, behind, hsign, hsignKind, hlast, hkind, hbehind, ?_⟩
  exact hvalue.trans (Tokenized.spanFrom_ofSource hlt hsign hlast hkind)

theorem tokens_of_recognizeAt {settings : Settings} {source : String} {first next : Nat}
    {span : Span} (hfirst : first < (Tokenized.ofSource source).tokens.size)
    (hok : (build settings).recognizeAt (Tokenized.ofSource source).tokens first =
      .ok ⟨span, next⟩) :
    let list := (Tokenized.ofSource source).tokens
    first < next ∧ ∃ sign last behind, list.get? first = some sign ∧ sign.kind = .atSign ∧
      list.get? (next - 1) = some last ∧ last.kind ≠ .endOfInput ∧ list.get? next = some behind ∧
      span = ⟨sign.span.start, last.span.stop⟩ := by
  intro list
  have hindex : (((build settings).cursor list).moveTo first).index = first := by
    refine Nat.min_eq_left ?_
    change first ≤ list.toSource.last
    rw [TokenList.last_toSource]
    exact Nat.le_sub_one_of_lt hfirst
  have htokens := tokens_of_recognize ((build settings).cursor_moveTo_outermost list first) hok
  rw [hindex] at htokens
  exact htokens

/-- A match starts at the first token from the offset on and spans the tokens of the annotation;
what it says to come next comes behind a gap. -/
theorem scanAt_exact (settings : Settings) (source : String) (offset : Nat) (span : Span)
    (stop : Nat) (h : (build settings).scanAt source offset = .matched span stop) :
    ∃ first next, ExactMatch source offset span stop first next := by
  obtain ⟨next, hok, hstop⟩ := recognizeAt_of_scanAt h
  obtain ⟨sign, hsign, hreached, hbefore⟩ := Tokenized.firstAtOrAfter_spec source offset
  generalize (Tokenized.ofSource source).tokens.firstAtOrAfter offset = first
    at hok hsign hbefore
  obtain ⟨hlt, sign', last, behind, hsign', hkind, hlast, hlastKind, hbehind, rfl⟩ :=
    tokens_of_recognizeAt (Array.getElem?_eq_some_iff.1 hsign).1 hok
  obtain rfl := Option.some.inj (hsign.symm.trans hsign')
  obtain rfl : stop = behind.span.start := by rw [hstop, hbehind, Option.elim_some]
  have hoffset : offset ≤ sign.span.start :=
    (Token.isBefore_eq_false.1 hreached).resolve_right (by rw [hkind]; nofun)
  have hsignBounds := Tokenized.bounds_of_get? hsign (by rw [hkind]; nofun)
  have hnext : next - 1 + 1 = next := by omega
  have hends := Tokenized.stop_le_stop (show first ≤ next - 1 by omega) hsign hlast hlastKind
  have hstops : last.span.stop ≤ behind.span.start :=
    Tokenized.stop_le_start (by omega) hlast hbehind
  refine ⟨first, next, ?_⟩
  constructor
  case lt => exact hlt
  case starts => exact ⟨sign, hsign, hkind, rfl⟩
  case isFirst =>
    intro i token htoken
    constructor
    · intro hle
      rcases Nat.lt_or_eq_of_le hle with hi | rfl
      · have hstart := Tokenized.start_lt hi hsign htoken
        omega
      · obtain rfl := Option.some.inj (hsign.symm.trans htoken)
        exact hoffset
    · intro hle
      by_contra hi
      have hstart := (Token.isBefore_eq_true.1 (hbefore i (Nat.lt_of_not_le hi) token htoken)).1
      omega
  case ends => exact ⟨last, hlast, rfl⟩
  case stops =>
    refine ⟨behind, hbehind, rfl, fun hend => ?_⟩
    exact (Tokenized.get?_eq_endOfInput hbehind hend).2
  case gap =>
    obtain ⟨gap, parts, hgap, hparts, -⟩ := Tokenized.exists_gapBefore hbehind
    rw [TokenList.gapBefore?, hbehind, Option.bind_some, Tokenized.source_ofSource, ← hnext,
      TokenList.stopBefore, hlast, Option.elim_some] at hgap
    exact ⟨gap, parts, hgap, hparts⟩
  case slice => exact Tokenized.slice_of_atSign hkind hsign hlast hends
  case progress =>
    refine ⟨hoffset, ?_, hstops, Tokenized.start_le_size hbehind⟩
    exact Nat.lt_of_lt_of_le hsignBounds.1 hends

/-- Behind the annotation there are a blank and a comment in front of the next name. -/
theorem scanAt_exact_commented : (build {}).scanAt "x @A /**/b" 1 = .matched ⟨2, 4⟩ 9 ∧
    ∃ first next, ExactMatch "x @A /**/b" 1 ⟨2, 4⟩ 9 first next := by
  have hmatch : (build {}).scanAt "x @A /**/b" 1 = .matched ⟨2, 4⟩ 9 := by decide +kernel
  exact ⟨hmatch, scanAt_exact {} _ _ _ _ hmatch⟩

end Recognizer
end AnnotationScan
