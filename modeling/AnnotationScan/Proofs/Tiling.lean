import AnnotationScan.Proofs.Token.Search
import AnnotationScan.Proofs.Token.Standing

/-!
# Tokens and gaps make up the text

The tokens of a text lie behind one another, the mark of the end closes them, and what is left
between them are gaps.  Each token is told what the gap in front of it contains.
-/

namespace AnnotationScan

namespace TokenList

def gapBefore? (list : TokenList) (index : Nat) : Option String :=
  (list.get? index).bind fun token =>
    Text.slice? list.source (list.stopBefore index) token.span.start

/-- The source is made up of tokens that are not empty, each behind a gap, and a gap in front of the
mark of the end. -/
structure Tiles (list : TokenList) : Prop where
  closed : ∃ (tokens : Array Token) (before : Trivia), list.tokens =
    tokens.push ⟨.endOfInput, Span.point list.source.utf8ByteSize, before⟩ ∧
      ∀ token ∈ tokens, token.kind ≠ .endOfInput ∧ token.span.start < token.span.stop
  ordered : list.tokens.toList.Pairwise fun a b => a.span.stop ≤ b.span.start
  text : ∀ i token, list.get? i = some token →
    Text.slice? list.source token.span.start token.span.stop = some (list.text i)
  gap : ∀ i < list.size, ∃ gap parts, list.gapBefore? i = some gap ∧ Gap gap.toList parts

end TokenList

namespace Tokenized

/-- The gap in front of a token, taken apart, and the trivia that the token is told to have there. -/
theorem exists_gapBefore {text : String} {i : Nat} {token : Token}
    (htoken : (ofSource text).tokens.get? i = some token) :
    ∃ gap parts, (ofSource text).tokens.gapBefore? i = some gap ∧ Gap gap.toList parts ∧
      token.before = Trivia.ofParts parts := by
  obtain ⟨front, gap, own, back, hamong, hstop, -⟩ := exists_among htoken
  obtain ⟨parts, hparts, htrivia⟩ := Gap.of_pieces hamong.pieces_eq hamong.trivia
  refine ⟨.ofList (gap.flatMap (·.text)), parts, ?_, ?_, hamong.before_eq.trans htrivia⟩
  · rw [TokenList.gapBefore?, htoken, source_ofSource, hstop]
    exact hamong.slice_gap
  · rwa [String.toList_ofList]

theorem bounds_of_mem {text : String} {token : Token} (h : token ∈ (progress text).tokens) :
    token.span.start < token.span.stop ∧ token.span.stop ≤ text.utf8ByteSize := by
  obtain ⟨part, hpart⟩ := (laid_progress text).covers token (Array.mem_toList_iff.2 h)
  rw [utf8ByteSize_eq]
  exact hpart.bounds

theorem ordered_ofSource (text : String) :
    (ofSource text).tokens.tokens.toList.Pairwise fun a b => a.span.stop ≤ b.span.start := by
  rw [tokens_ofSource, Progress.closed, Array.toList_push, List.pairwise_append]
  refine ⟨(laid_progress text).ordered, List.pairwise_singleton _ _, fun a ha b hb => ?_⟩
  obtain rfl := List.mem_singleton.1 hb
  rw [offset_progress]
  exact (bounds_of_mem (Array.mem_toList_iff.1 ha)).2

/-- The tokens of a text and the gaps between them make up the text. -/
theorem tiles_ofSource (text : String) :
    (ofSource text).tokens.source = text ∧ (ofSource text).tokens.Tiles := by
  have hsource := source_ofSource text
  refine ⟨hsource, ?_⟩
  constructor
  case closed =>
    refine ⟨(progress text).tokens, (progress text).pending, ?_, fun token htoken => ?_⟩
    · rw [tokens_ofSource, Progress.closed, offset_progress]
    · exact ⟨endOfInput_notMem text token htoken, (bounds_of_mem htoken).1⟩
  case ordered => exact ordered_ofSource text
  case text =>
    intro i token htoken
    obtain ⟨front, gap, own, back, hamong, -⟩ := exists_among htoken
    rw [hsource, text_ofSource htoken hamong]
    exact hamong.slice_own
  case gap =>
    intro i hi
    obtain ⟨gap, parts, hgap, hparts, -⟩ := exists_gapBefore (Array.getElem?_eq_getElem hi)
    exact ⟨gap, parts, hgap, hparts⟩

/-- A token is told what the gap in front of it contains: a line feed, be it in a comment, a
comment, and a blank outside of comments. -/
theorem before_tells_gap (text : String) (i : Nat) (token : Token)
    (htoken : (ofSource text).tokens.get? i = some token) :
    ∃ gap parts, (ofSource text).tokens.gapBefore? i = some gap ∧ Gap gap.toList parts ∧
      (∀ parts', Gap gap.toList parts' → parts' = parts) ∧
      (token.before.lineFeed = true ↔ '\n' ∈ gap.toList) ∧
      (token.before.comment = true ↔ ∃ part ∈ parts, part.isComment = true) ∧
      (token.before.blank = true ↔ ∃ part ∈ parts, part.isBlank = true) ∧
      (token.before = .empty ↔ gap = "") := by
  obtain ⟨gap, parts, hgap, hparts, hbefore⟩ := exists_gapBefore htoken
  obtain ⟨hfeed, hcomment, hblank, hempty⟩ := hparts.ofParts_spec
  rw [hbefore]
  refine ⟨gap, parts, hgap, hparts, fun parts' h => h.unique hparts rfl, hfeed, hcomment, hblank,
    hempty.trans ?_⟩
  rw [← String.toList_inj]
  rfl

/-- The name is joined from two pieces, and the comment in front of it holds a line feed. -/
theorem before_tells_gap_joined :
    let list := (ofSource "a /*\n*/!in b").tokens
    let token : Token := ⟨.notIn, ⟨7, 10⟩, { blank := true, lineFeed := true, comment := true }⟩
    list.get? 1 = some token ∧ list.gapBefore? 1 = some " /*\n*/" ∧
      ∃ parts, Gap " /*\n*/".toList parts ∧ ∃ part ∈ parts, part.isComment = true := by
  intro list token
  have htoken : list.get? 1 = some token := by decide +kernel
  obtain ⟨gap, parts, hgap, hparts, -, -, hcomment, -, -⟩ :=
    before_tells_gap "a /*\n*/!in b" 1 token htoken
  have hslice : list.gapBefore? 1 = some " /*\n*/" := by decide +kernel
  obtain rfl := Option.some.inj (hgap.symm.trans hslice)
  exact ⟨htoken, hslice, parts, hparts, hcomment.1 rfl⟩

end Tokenized
end AnnotationScan
