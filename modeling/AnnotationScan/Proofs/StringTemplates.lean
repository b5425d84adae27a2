import AnnotationScan.Proofs.Rereading
import AnnotationScan.Proofs.StringLiterals

/-!
# Templates and the tokens in them

What the tokenizer reads on its own, with its braces well nested, may stand in a template: in front
of the closing brace the scan of the string passes over the tokens one by one.  It does not know
characters, raw strings and quoted names, so these have to look like items of a template themselves;
a quote between single quotes, read as the start of a string, runs away with the template.
-/

namespace AnnotationScan

open StringByte

/-! ## Texts without quotes and braces -/

namespace Text

/-- The characters that are more than themselves in a template. -/
def templateMarks : List Char := ['\x7b', '\x7d', '"', '\n']

theorem templateItems {cs : List Char} (h : ∀ c ∈ cs, c ∉ templateMarks) :
    TemplateItems (bytes cs) := by
  have hother : ∀ b ∈ bytes cs, b ∉ [openBrace, closeBrace, quote, lineFeed] := by
    intro b hb hmark
    obtain ⟨c, hc, hb⟩ := List.mem_flatMap.1 hb
    rcases Nat.lt_or_ge c.toNat 128 with hascii | hascii
    · rw [utf8EncodeChar_ascii hascii, List.mem_singleton] at hb
      subst hb
      apply h c hc
      simp only [List.mem_cons, List.not_mem_nil, or_false, templateMarks] at hmark ⊢
      exact hmark.imp (toUInt8_inj hascii (by decide)) (.imp (toUInt8_inj hascii (by decide))
        (.imp (toUInt8_inj hascii (by decide)) (toUInt8_inj hascii (by decide))))
    · have hle := le_of_mem_utf8EncodeChar hascii hb
      simp only [List.mem_cons, List.not_mem_nil, or_false] at hmark
      rcases hmark with rfl | rfl | rfl | rfl <;> revert hle <;> decide
  generalize bytes cs = text at hother
  induction text with
  | nil => exact .nil
  | cons b text ih =>
      obtain ⟨hb, htext⟩ := List.forall_mem_cons.1 hother
      exact .other hb (ih htext)

end Text

theorem TemplateItems.append {front rest : List UInt8} (h : TemplateItems front)
    (hrest : TemplateItems rest) : TemplateItems (front ++ rest) :=
  match h with
  | .nil => hrest
  | .braces hinner hmore => by simpa using TemplateItems.braces hinner (hmore.append hrest)
  | .string hinner hmore => by simpa using TemplateItems.string hinner (hmore.append hrest)
  | .other hb hmore => .other hb (hmore.append hrest)

namespace Form

def Unmarked (form : Form) : Prop :=
  ∀ cs n, form cs = some n → ∀ c ∈ cs.take n, c ∉ Text.templateMarks

namespace Unmarked

variable {holds : Char → Bool} {form : Form} {forms : List Form}

theorem one (h : Text.templateMarks.any holds = false) : Unmarked (one holds) := by
  intro cs n hn c hc hmark
  obtain ⟨rfl, d, rest, rfl, hd⟩ := one_eq_some.1 hn
  obtain rfl := List.mem_singleton.1 hc
  exact List.any_eq_false.1 h c hmark hd

theorem many (h : Text.templateMarks.any holds = false) : Unmarked (many holds) := by
  intro cs n hn c hc hmark
  obtain rfl := Option.some.inj hn
  rw [take_length_takeWhile] at hc
  exact List.any_eq_false.1 h c hmark (List.all_eq_true.1 List.all_takeWhile c hc)

theorem nil : Unmarked (chain []) := by
  intro cs n hn
  obtain rfl := Option.some.inj hn
  simp

theorem cons (h : Unmarked form) (hrest : Unmarked (chain forms)) :
    Unmarked (chain (form :: forms)) := by
  intro cs n hn c hc
  obtain ⟨length, more, hlength, hmore, rfl⟩ := chain_cons_eq_some.1 hn
  rw [List.take_add] at hc
  rcases List.mem_append.1 hc with hc | hc
  · exact h cs length hlength c hc
  · exact hrest _ more hmore c hc

theorem optional (h : Unmarked form) : Unmarked (optional form) := by
  intro cs n hn
  obtain rfl := Option.some.inj hn
  cases hform : form cs with
  | none => simp
  | some n => exact h cs n hform

theorem group (h : Text.templateMarks.any holds = false) : Unmarked (group holds) := by
  refine .cons (.one h) (.cons (.many (List.any_eq_false.2 fun c hc hpart => ?_)) .nil)
  rcases Bool.or_eq_true_iff.1 hpart with hdigit | hunderscore
  · exact List.any_eq_false.1 h c hc hdigit
  · obtain rfl : c = '_' := of_decide_eq_true hunderscore
    exact absurd hc (by decide)

theorem integerSuffix : Unmarked integerSuffix :=
  .cons (.optional (.one (by decide))) (.cons (.optional (.one (by decide))) .nil)

theorem basedInteger {mark isDigit : Char → Bool}
    (hmark : Text.templateMarks.any mark = false)
    (hdigit : Text.templateMarks.any isDigit = false) : Unmarked (basedInteger mark isDigit) :=
  .cons (.one (by decide)) (.cons (.one hmark) (.cons (.group hdigit) (.cons integerSuffix .nil)))

theorem exponent : Unmarked exponent :=
  .cons (.one (by decide)) (.cons (.optional (.one (by decide))) (.cons (.group (by decide)) .nil))

theorem fraction : Unmarked fraction :=
  .cons (.one (by decide)) (.cons (.group (by decide)) (.cons (.optional exponent)
    (.cons (.optional (.one (by decide))) .nil)))

theorem of_mem_numbers (h : form ∈ integers ++ floats) : Unmarked form := by
  have hdigits : Unmarked (Form.group Char.isDigit) := .group (by decide)
  simp only [integers, floats, List.cons_append, List.nil_append, List.mem_cons, List.not_mem_nil,
    or_false] at h
  rcases h with rfl | rfl | rfl | rfl | rfl | rfl | rfl
  · exact .cons hdigits (.cons integerSuffix .nil)
  · exact basedInteger (by decide) (by decide)
  · exact basedInteger (by decide) (by decide)
  · exact .cons hdigits (.cons fraction .nil)
  · exact fraction
  · exact .cons hdigits (.cons exponent (.cons (.optional (.one (by decide))) .nil))
  · exact .cons hdigits (.cons (.one (by decide)) .nil)

end Unmarked
end Form

/-! ## Tokens as items of a template -/

namespace TokenKind

/-- Tokens that may hide quotes and braces from the tokenizer, but not from the scan of a string. -/
def hides (kind : TokenKind) (text : String) : Bool :=
  kind = .characterLiteral || kind = .rawStringLiteral ||
    kind = .identifier && text.toList.head? = some '`'

/-- The braces open behind a token of some kind. -/
def bracesBehind? (braces : Nat) : TokenKind → Option Nat
  | .leftBrace => some (braces + 1)
  | .rightBrace => if braces = 0 then none else some (braces - 1)
  | _ => some braces

/-- The braces that some tokens leave open, if they close only braces they have opened. -/
def braces? (kinds : List TokenKind) : Option Nat := kinds.foldlM bracesBehind? 0

theorem spelling_unmarked : ∀ kind ∈ hardKeywords ++ signs ++ [.notIn, .notIs, .safeCast],
    kind ≠ .leftBrace → kind ≠ .rightBrace →
      ∀ c ∈ (kind.spelling?.getD "").toList, c ∉ Text.templateMarks := by
  have hspared : ∀ kind ∈ hardKeywords ++ signs ++ [.notIn, .notIs, .safeCast],
      kind ≠ .leftBrace → kind ≠ .rightBrace →
        Text.templateMarks.any (kind.spelling?.getD "").toList.contains = false := by decide
  intro kind hkind hopen hclose c hc hmark
  exact List.any_eq_false.1 (hspared kind hkind hopen hclose) c hmark (List.contains_iff_mem.2 hc)

theorem exists_spelling : ∀ kind ∈ hardKeywords ++ signs ++ [.notIn, .notIs, .safeCast],
    ∃ spelling, kind.spelling? = some spelling := by
  intro kind hkind
  have hsome : ∀ kind ∈ hardKeywords ++ signs ++ [.notIn, .notIs, .safeCast],
      kind.spelling?.isSome = true := by decide
  exact Option.isSome_iff_exists.1 (hsome kind hkind)

end TokenKind

theorem Form.Unmarked.word : Unmarked
    (chain [Form.one Piece.isWordStart, Form.many Piece.isWordPart]) :=
  .cons (.one (by decide)) (.cons (.many (by decide)) .nil)

namespace Piece

variable {cs : List Char} {kind : TokenKind} {n : Nat}

theorem templateItems_of_form {form : Form} (hform : form.Unmarked) {kind' : PieceKind}
    (h : ofForm kind' form cs = some (.token kind, n)) :
    TemplateItems (Text.bytes (cs.take n)) := by
  obtain ⟨m, hm, hreading⟩ := ofForm_eq_some.1 h
  obtain rfl := (Prod.mk.inj hreading).2
  exact Text.templateItems (hform cs m hm)

theorem templateItems_of_string (h : stringLiteral cs = some (.token kind, n)) :
    TemplateItems (Text.bytes (cs.take n)) := by
  unfold stringLiteral at h
  split at h
  case h_2 => cases h
  case h_1 body =>
    split at h
    case h_2 => cases h
    case h_1 length hlength =>
      obtain rfl := (Prod.mk.inj (Option.some.inj h)).2
      have hbody := (Form.derivesBody body).ok_iff (Text.byteLength (body.take length))
      rw [Form.bodyBytes, hlength] at hbody
      obtain ⟨-, hbody⟩ := hbody.1 rfl
      rw [Text.take_bytes_length (List.take_prefix length body)] at hbody
      rw [Nat.add_comm, List.take_succ_cons]
      have hstring := TemplateItems.string hbody .nil
      rwa [List.append_nil] at hstring

/-- What the tokenizer reads as a token without a spelling of its own is passed over in a template,
unless it hides something. -/
theorem templateItems_of_reading {reader : Reader} (h : reader ∈ readers)
    (hreading : reader cs = some (.token kind, n)) (hspelling : kind.spelling? = none) :
    TemplateItems (Text.bytes (cs.take n)) ∨ kind.hides (.ofList (cs.take n)) = true := by
  have hspelled : ∀ kind' ∈ TokenKind.hardKeywords ++ TokenKind.signs,
      spelled kind' cs ≠ some (.token kind, n) := by
    intro kind' hkind hspelled
    obtain rfl := PieceKind.token.inj (kind_of_ofForm hspelled)
    obtain ⟨spelling, hsome⟩ := TokenKind.exists_spelling kind' (List.mem_append_left _ hkind)
    cases hspelling.symm.trans hsome
  rcases mem_readers_of_token h hreading with hplain | rfl | rfl | rfl | rfl
  · rcases mem_plainReaders hplain with ⟨kind', hkind, rfl⟩ | ⟨kind', hkind, rfl⟩ | rfl |
      ⟨kind', form, hform, rfl⟩
    · have hkeyword := (Option.filter_eq_some_iff.1 hreading).1
      exact absurd hkeyword (hspelled kind' (List.mem_append_left _ hkind))
    · exact absurd hreading (hspelled kind' (List.mem_append_right _ hkind))
    · exact .inl (templateItems_of_form .word hreading)
    · exact .inl (templateItems_of_form (.of_mem_numbers hform) hreading)
  · -- a name in quotes is told by its quote, whatever is inside
    obtain ⟨m, hm, hread⟩ := ofForm_eq_some.1 hreading
    obtain ⟨hkind, rfl⟩ := Prod.mk.inj hread
    obtain rfl := PieceKind.token.inj hkind
    obtain ⟨length, more, hone, -, rfl⟩ := Form.chain_cons_eq_some.1 hm
    obtain ⟨rfl, c, rest, rfl, hc⟩ := Form.one_eq_some.1 hone
    obtain rfl : c = '`' := of_decide_eq_true hc
    refine .inr ?_
    rw [TokenKind.hides, String.toList_ofList, Nat.add_comm, List.take_succ_cons]
    rfl
  · obtain rfl := PieceKind.token.inj (kind_of_ofForm hreading)
    exact .inr rfl
  · exact .inl (templateItems_of_string hreading)
  · unfold rawStringLiteral at hreading
    split at hreading
    case h_1 =>
      split at hreading
      case h_1 =>
        obtain rfl := PieceKind.token.inj (Prod.mk.inj (Option.some.inj hreading)).1
        exact .inr rfl
      case h_2 => cases hreading
    case h_2 => cases hreading

/-- Blanks are passed over in a template, as is any trivia but line feeds and comments. -/
theorem templateItems_of_trivia {rest : List Char} {piece : Piece} (h : Shape rest piece)
    (htrivia : piece.trivia?.isSome = true) (hline : '\n' ∉ piece.text)
    (hcomment : (piece.trivia?.getD .empty).comment = false) :
    TemplateItems (Text.bytes piece.text) := by
  cases h with
  | blanks _ htext =>
      have hspared : Text.templateMarks.any isInlineBlank = false := by decide
      exact Text.templateItems fun c hc hmark => List.any_eq_false.1 hspared c hmark (htext c hc)
  | lineFeed => exact absurd List.mem_cons_self hline
  | lineComment | blockComment => cases hcomment
  | spelled | unspelled | fault => cases htrivia

end Piece

namespace Tokenized

/-- A text that may stand in a template: one line without faults and comments, whose braces are well
nested. -/
structure Fits (tokenized : Tokenized) : Prop where
  line : '\n' ∉ tokenized.tokens.source.toList
  faults : tokenized.faults = #[]
  comments : ∀ token ∈ tokenized.tokens.tokens.toList, token.before.comment = false
  nested : TokenKind.braces? (tokenized.tokens.tokens.toList.map (·.kind)) = some 0

/-- The pieces of a token do in a template what its kind says. -/
def Acts (kind : TokenKind) (text : List Char) : Prop :=
  match kind with
  | .leftBrace => text = ['\x7b']
  | .rightBrace => text = ['\x7d']
  | _ => TemplateItems (Text.bytes text)

theorem Acts.of_items {kind : TokenKind} {text : List Char} (hopen : kind ≠ .leftBrace)
    (hclose : kind ≠ .rightBrace) (h : TemplateItems (Text.bytes text)) : Acts kind text := by
  unfold Acts
  split
  · exact absurd rfl hopen
  · exact absurd rfl hclose
  · exact h

theorem Acts.of_spelling {kind : TokenKind} {spelling : String}
    (hmem : kind ∈ TokenKind.hardKeywords ++ TokenKind.signs ++ [.notIn, .notIs, .safeCast])
    (hspelling : kind.spelling? = some spelling) : Acts kind spelling.toList := by
  by_cases hopen : kind = .leftBrace
  · subst hopen
    obtain rfl := Option.some.inj hspelling
    rfl
  by_cases hclose : kind = .rightBrace
  · subst hclose
    obtain rfl := Option.some.inj hspelling
    rfl
  have hmarks := TokenKind.spelling_unmarked kind hmem hopen hclose
  rw [hspelling] at hmarks
  exact .of_items hopen hclose (Text.templateItems hmarks)

theorem demands_items {items bytes : List UInt8} (h : TemplateItems items) {braces : Nat}
    (hbytes : Form.Demands (.template braces []) bytes) :
    Form.Demands (.template braces []) (items ++ bytes) := by
  obtain ⟨next, hnext⟩ := Form.exists_itemsThen braces []
  rw [hnext] at hbytes ⊢
  obtain ⟨inner, rest, rfl, hinner, hrest⟩ := hbytes
  exact ⟨items ++ inner, rest, by rw [List.append_assoc], h.append hinner, hrest⟩

theorem Acts.demands {kind : TokenKind} {text : List Char} (h : Acts kind text)
    {bytes : List UInt8} {braces after : Nat} (hbehind : kind.bracesBehind? braces = some after)
    (hbytes : Form.Demands (.template after []) bytes) :
    Form.Demands (.template braces []) (Text.bytes text ++ bytes) := by
  unfold Acts at h
  unfold TokenKind.bracesBehind? at hbehind
  split at h
  case h_1 =>
    obtain rfl := Option.some.inj hbehind
    rw [h]
    exact ((Form.Steps.openBrace braces []).iff bytes List.prefix_rfl).2 hbytes
  case h_2 =>
    cases braces with
    | zero => cases hbehind
    | succ braces =>
        obtain rfl := Option.some.inj hbehind
        rw [h]
        exact ((Form.Steps.closeBrace_succ braces []).iff bytes List.prefix_rfl).2 hbytes
  case h_3 hopen hclose =>
    split at hbehind
    case h_1 => exact absurd rfl hopen
    case h_2 => exact absurd rfl hclose
    case h_3 =>
      obtain rfl := Option.some.inj hbehind
      exact demands_items h hbytes

/-- Tokens that do in a template what they say take along its open braces. -/
theorem Stands.demands {all pieces more : List Piece} {tokens : List Token}
    (h : Stands pieces tokens) (hall : all = pieces ++ more)
    (hacts : ∀ token ∈ tokens, ∀ front gap own back, Among all token front gap own back →
      Makes token.kind own → TemplateItems (Text.bytes (gap.flatMap (·.text))) ∧
        Acts token.kind (own.flatMap (·.text)))
    {after : Nat} (hbraces : TokenKind.braces? (tokens.map (·.kind)) = some after)
    {bytes : List UInt8} (hbytes : Form.Demands (.template after []) bytes) :
    Form.Demands (.template 0 []) (Text.bytes (pieces.flatMap (·.text)) ++ bytes) := by
  induction h generalizing more after bytes with
  | nil =>
      obtain rfl := Option.some.inj hbraces
      exact hbytes
  | @token pieces front gap own tokens last hfront hamong hown ih =>
      rw [List.map_append, TokenKind.braces?, List.foldlM_append] at hbraces
      obtain ⟨braces, hbefore, hbehind⟩ := Option.bind_eq_some_iff.1 hbraces
      obtain ⟨after', hlast, hafter⟩ := Option.bind_eq_some_iff.1 hbehind
      obtain rfl := Option.some.inj hafter
      have hpieces := hamong.pieces_eq
      rw [List.append_nil] at hpieces
      have hmem : last ∈ tokens ++ [last] := List.mem_append_right _ List.mem_cons_self
      obtain ⟨hgap, hact⟩ := hacts last hmem front gap own more
        ⟨by rw [hall, hpieces]; simp, hamong.trivia, hamong.span_eq, hamong.before_eq⟩ hown
      have hrest := demands_items hgap (hact.demands hlast hbytes)
      have hdemands := ih (by rw [hall, hpieces, List.append_assoc])
        (fun token htoken => hacts token (List.mem_append_left _ htoken)) hbefore hrest
      rw [hpieces]
      simpa using hdemands

variable {text : String} {token : Token} {front gap own back : List Piece}

theorem comment_of_mem {pieces : List Piece} (h : (Trivia.ofPieces pieces).comment = false) :
    ∀ piece ∈ pieces, (piece.trivia?.getD .empty).comment = false := by
  induction pieces with
  | nil => simp
  | cons piece pieces ih =>
      rw [Trivia.ofPieces_cons, Trivia.union, Bool.or_eq_false_iff] at h
      exact List.forall_mem_cons.2 ⟨h.1, ih h.2⟩

theorem templateItems_flatMap {pieces : List Piece}
    (h : ∀ piece ∈ pieces, TemplateItems (Text.bytes piece.text)) :
    TemplateItems (Text.bytes (pieces.flatMap (·.text))) := by
  induction pieces with
  | nil => exact .nil
  | cons piece pieces ih =>
      obtain ⟨hpiece, hpieces⟩ := List.forall_mem_cons.1 h
      rw [List.flatMap_cons, Text.bytes_append]
      exact hpiece.append (ih hpieces)

theorem templateItems_gap {front gap back : List Piece}
    (hpieces : (Piece.ofText text.toList).toList = front ++ (gap ++ back))
    (hline : '\n' ∉ text.toList) (htrivia : ∀ piece ∈ gap, piece.trivia?.isSome = true)
    (hcomment : (Trivia.ofPieces gap).comment = false) :
    TemplateItems (Text.bytes (gap.flatMap (·.text))) := by
  refine templateItems_flatMap fun piece hpiece => ?_
  obtain ⟨before, after, rfl⟩ := List.append_of_mem hpiece
  have hplace : (Piece.ofText text.toList).toList =
      (front ++ before) ++ piece :: (after ++ back) := hpieces.trans (by simp)
  have hshape := Piece.shape_of_mem hplace
  refine Piece.templateItems_of_trivia hshape (htrivia piece hpiece) (fun hfeed => hline ?_)
    (comment_of_mem hcomment piece hpiece)
  rw [← Piece.text_ofText text.toList, hpieces]
  exact List.mem_flatMap.2 ⟨piece, by simp, hfeed⟩

theorem Makes.acts {kind : TokenKind} (h : Makes kind own) (hkind : kind ≠ .malformed)
    (hpieces : (Piece.ofText text.toList).toList = front ++ (own ++ back)) :
    Acts kind (own.flatMap (·.text)) ∨ kind.hides (.ofList (own.flatMap (·.text))) = true := by
  have hspelled : kind ∈ TokenKind.hardKeywords ++ TokenKind.signs ++ [.notIn, .notIs, .safeCast] →
      Acts kind (own.flatMap (·.text)) := by
    intro hmem
    obtain ⟨spelling, hspelling⟩ := TokenKind.exists_spelling kind hmem
    rw [h.text_of_spelling hpieces hspelling]
    exact .of_spelling hmem hspelling
  cases h with
  | token _ text =>
      have hshape := Piece.shape_of_mem hpieces
      cases hshape with
      | spelled hmem => exact .inl (hspelled (List.mem_append_left _ hmem))
      | unspelled hmem =>
          have hspelling := TokenKind.spelling?_of_mem_unspelled hmem
          obtain ⟨reader, hreader, n, hreading, htext⟩ :=
            Piece.exists_reading (Piece.atStart_of_mem hpieces) nofun
          have hitems := Piece.templateItems_of_reading hreader hreading hspelling
          rw [← htext] at hitems
          rw [List.flatMap_singleton]
          refine hitems.imp_left (.of_items ?_ ?_)
          · rintro rfl
            cases hspelling
          · rintro rfl
            cases hspelling
  | joined hjoined first second =>
      refine .inl (hspelled ?_)
      rcases TokenKind.joined?_cases hjoined with ⟨-, -, rfl⟩ | ⟨-, -, rfl⟩ | ⟨-, -, rfl⟩ <;> decide
  | fault => exact absurd rfl hkind

def stringAlone (source : String) : Tokenized where
  tokens := ⟨source, #[⟨.stringLiteral, ⟨0, source.utf8ByteSize⟩, .empty⟩,
    ⟨.endOfInput, Span.point source.utf8ByteSize, .empty⟩]⟩
  faults := #[]

theorem stringBody_of_derives {body : List Char} (h : StringBody (Text.bytes body)) :
    Form.stringBody body = .ok body.length := by
  have hfinds := Form.finds_stringEnd (.text []) body 0
  change Form.Finds _ _ _ (Form.stringBody body) at hfinds
  rw [← Form.demands_body] at h
  cases hbody : Form.stringBody body with
  | error n =>
      rw [hbody] at hfinds
      exact absurd h (hfinds.2 _ List.prefix_rfl)
  | ok n =>
      rw [hbody] at hfinds
      obtain ⟨front, hline, rfl, hfront⟩ := hfinds
      obtain ⟨rest, hrest⟩ := hline.trans (List.takeWhile_prefix _)
      have hbytes := congrArg List.length ((hfront _ List.prefix_rfl).1 h)
      rw [← hrest] at hbytes ⊢
      -- the rest has no bytes, so it has no characters
      have hnil : rest = [] := by
        by_contra hne
        have hpos := Text.byteLength_pos hne
        simp only [Text.length_bytes, Text.byteLength_append] at hbytes
        omega
      rw [hnil, List.append_nil, Nat.zero_add]

theorem ofSource_string {body : List Char} (h : StringBody (Text.bytes body)) :
    ofSource (.ofList ('"' :: body)) = stringAlone (.ofList ('"' :: body)) := by
  have hbody := stringBody_of_derives h
  have hpiece := Piece.ofText_of_atStart (List.cons_ne_nil _ _) (Piece.atStart_string hbody)
  have hreads : ReadsAs (.ofList ('"' :: body)) .stringLiteral :=
    .of_piece (by rwa [String.toList_ofList])
  have hoffset := offset_progress (.ofList ('"' :: body))
  have hpending : (progress (.ofList ('"' :: body))).pending = .empty := by
    rw [progress, String.toList_ofList, hpiece]
    rfl
  rw [ofSource_eq]
  change (⟨⟨_, Progress.closed (progress _)⟩, (progress _).faults⟩ : Tokenized) = _
  rw [Progress.closed, hreads.tokens, hreads.faults, hoffset, hpending]
  rfl

theorem Fits.ne_malformed (hfits : (ofSource text).Fits) :
    ∀ token ∈ (ofSource text).tokens.tokens.toList, token.kind ≠ .malformed := by
  intro token htoken hkind
  have hspans := spans_faults text
  rw [hfits.faults] at hspans
  have hmem := TokenList.mem_malformed.2 ⟨Array.mem_toList_iff.1 htoken, hkind⟩
  rw [List.map_eq_nil_iff.1 hspans.symm] at hmem
  cases hmem

/-- What fits into a template closes it with the brace behind it. -/
theorem Fits.stringBody (hfits : (ofSource text).Fits)
    (hhidden : ∀ token ∈ (ofSource text).tokens.tokens.toList,
      token.kind.hides ((ofSource text).tokens.textAt token.span) = true →
        TemplateItems (Text.bytes ((ofSource text).tokens.textAt token.span).toList)) :
    StringBody (Text.bytes (['$', '\x7b'] ++ text.toList ++ ['\x7d', '"'])) := by
  have hmalformed := hfits.ne_malformed
  obtain ⟨hline, -, hcomments, hnested⟩ := hfits
  obtain ⟨front, gap, hpieces, hholds⟩ := exists_holds text
  have hall : (ofSource text).tokens.tokens.toList = (progress text).tokens.toList ++
      [⟨.endOfInput, Span.point (progress text).offset, (progress text).pending⟩] := by
    rw [tokens_ofSource, Progress.closed, Array.toList_push]
  rw [source_ofSource] at hline
  have hgap : TemplateItems (Text.bytes (gap.flatMap (·.text))) := by
    have hplace : (Piece.ofText text.toList).toList = front ++ (gap ++ []) := by
      rw [hpieces, List.append_nil]
    refine templateItems_gap hplace hline hholds.trivia ?_
    rw [← hholds.pending_eq]
    exact hcomments _ (hall ▸ List.mem_append_right _ List.mem_cons_self)
  rw [hall, List.map_append, TokenKind.braces?, List.foldlM_append] at hnested
  obtain ⟨braces, hbraces, hend⟩ := Option.bind_eq_some_iff.1 hnested
  obtain rfl := Option.some.inj hend
  -- from its end on, the text is followed by what closes the template and the string
  have hclosing : Form.Demands (.template 0 []) [closeBrace, quote] := by
    refine ((Form.Steps.closeBrace_zero []).iff [quote] List.prefix_rfl).2 ?_
    exact Form.demands_body.2 .close
  have hdemands := hholds.stands.demands hpieces ?_ hbraces (demands_items hgap hclosing)
  · have htext := Piece.text_ofText text.toList
    rw [hpieces, List.flatMap_append] at htext
    rw [← List.append_assoc, ← Text.bytes_append, htext] at hdemands
    have htemplate := ((Form.Steps.template []).iff _ List.prefix_rfl).2 hdemands
    rw [Form.demands_body] at htemplate
    rw [Text.bytes_append, Text.bytes_append, List.append_assoc]
    exact htemplate
  · intro token htoken front gap own back hamong hown
    have hmem : token ∈ (ofSource text).tokens.tokens.toList :=
      hall ▸ List.mem_append_left _ htoken
    have hown' := hamong.pieces_eq
    rw [← List.append_assoc] at hown'
    refine ⟨templateItems_gap hamong.pieces_eq hline hamong.trivia ?_, ?_⟩
    · rw [← hamong.before_eq]
      exact hcomments token hmem
    · refine (hown.acts (hmalformed token hmem) hown').elim id fun hhides => ?_
      have htext : (ofSource text).tokens.textAt token.span = .ofList (own.flatMap (·.text)) := by
        rw [TokenList.textAt, source_ofSource, hamong.slice_own, Option.getD_some]
      have hitems := hhidden token hmem (htext ▸ hhides)
      rw [htext, String.toList_ofList] at hitems
      refine .of_items ?_ ?_ hitems
      · intro hopen
        rw [hopen] at hhides
        cases hhides
      · intro hclose
        rw [hclose] at hhides
        cases hhides

/-- Text that fits into a template is closed by the brace behind it, and the string by the quote, if
its literals, raw strings and quoted names look balanced to a reader of templates. -/
theorem ofSource_template (text : String) (hfits : (ofSource text).Fits)
    (hhidden : ∀ token ∈ (ofSource text).tokens.tokens.toList,
      token.kind.hides ((ofSource text).tokens.textAt token.span) = true →
        TemplateItems (Text.bytes ((ofSource text).tokens.textAt token.span).toList)) :
    ofSource ("\"$\x7b" ++ text ++ "\x7d\"") = stringAlone ("\"$\x7b" ++ text ++ "\x7d\"") := by
  have hsource : "\"$\x7b" ++ text ++ "\x7d\"" =
      .ofList ('"' :: (['$', '\x7b'] ++ text.toList ++ ['\x7d', '"'])) := by
    apply String.toList_inj.1
    simp [String.toList_append]
  rw [hsource]
  exact ofSource_string (hfits.stringBody hhidden)

/-- A lambda with a brace in a string and a character between single quotes. -/
def lambdaText : String := "f \x7b \"\x7d\" + 'a' \x7d"

theorem ofSource_template_lambda : (ofSource lambdaText).Fits ∧
    ofSource ("\"$\x7b" ++ lambdaText ++ "\x7d\"") =
      stringAlone ("\"$\x7b" ++ lambdaText ++ "\x7d\"") := by
  have hfits : (ofSource lambdaText).Fits := by
    constructor <;> decide +kernel
  have hspared : ∀ token ∈ (ofSource lambdaText).tokens.tokens.toList,
      token.kind.hides ((ofSource lambdaText).tokens.textAt token.span) = true →
        Text.templateMarks.any ((ofSource lambdaText).tokens.textAt token.span).toList.contains =
          false := by
    decide +kernel
  exact ⟨hfits, ofSource_template _ hfits fun token htoken hhides =>
    Text.templateItems fun c hc hmark =>
      List.any_eq_false.1 (hspared token htoken hhides) c hmark (List.contains_iff_mem.2 hc)⟩

/-- A quote between single quotes opens a string for the scan of the template, and the template is
never closed. -/
theorem not_forall_ofSource_template : ¬∀ text : String, (ofSource text).Fits →
    ofSource ("\"$\x7b" ++ text ++ "\x7d\"") = stringAlone ("\"$\x7b" ++ text ++ "\x7d\"") := by
  intro h
  have hfits : (ofSource "'\"'").Fits := by
    constructor <;> decide +kernel
  have hstring := h "'\"'" hfits
  revert hstring
  decide +kernel

end Tokenized
end AnnotationScan
