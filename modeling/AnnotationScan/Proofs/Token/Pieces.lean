import AnnotationScan.Proofs.Token.Readers
import Mathlib.Data.List.TakeWhile

/-!
# Pieces in front of a gap

The pieces of a text stay what they are if the text goes on behind a gap, as long as none of them is
a fault and the last one is a token.  Most classes of pieces hold no gap.  A comment, a string or a
quoted name may hold gaps; if it were not closed, its longest reading would be a fault or run on to
the end of the text.
-/

namespace AnnotationScan.Piece

open Form (isGap Stops)

/-! ## Texts whose pieces are finished -/

/-- A reader takes the same of a text if the text goes on behind a gap. -/
structure SettledAt (reader : Reader) (cs : List Char) : Prop where
  le : ∀ reading, reader cs = some reading → reading.2 ≤ cs.length
  same : ∀ gap rest, isGap gap = true → reader (cs ++ gap :: rest) = reader cs

theorem SettledAt.ofForm {form : Form} {cs : List Char} (kind : PieceKind)
    (h : form.SettledAt cs) : SettledAt (ofForm kind form) cs := by
  refine ⟨fun reading hreading => ?_, fun gap rest hgap => ?_⟩
  · obtain ⟨n, hn, rfl⟩ := ofForm_eq_some.1 hreading
    exact h.le n hn
  · rw [Piece.ofForm, Piece.ofForm, h.same gap rest hgap]

/-- A reader that refuses a text, and refuses it before a gap, is settled there. -/
theorem SettledAt.refuses {reader : Reader} {cs : List Char} (h : reader cs = none)
    (hgap : ∀ gap rest, isGap gap = true → reader (cs ++ gap :: rest) = none) :
    SettledAt reader cs where
  le reading hreading := by cases h.symm.trans hreading
  same gap rest hg := (hgap gap rest hg).trans h.symm

theorem settledAt_spelled {kind : TokenKind} (h : kind ∈ TokenKind.hardKeywords ++ TokenKind.signs)
    (cs : List Char) : SettledAt (spelled kind) cs := by
  have hgaps : (TokenKind.hardKeywords ++ TokenKind.signs).all (fun kind =>
      (kind.spelling?.getD "").toList.all (!isGap ·)) = true := by decide
  exact .ofForm _ (Form.Settled.literal (List.all_eq_true.1 hgaps kind h) cs)

theorem settledAt_keyword {kind : TokenKind} (h : kind ∈ TokenKind.hardKeywords) (cs : List Char) :
    SettledAt (keyword kind) cs := by
  have hspelled := settledAt_spelled (List.mem_append_left _ h) cs
  have hstops : Stops opensWordPart := by decide
  refine ⟨fun reading hreading => ?_, fun gap rest hgap => ?_⟩
  · exact hspelled.le reading (Option.filter_eq_some_iff.1 hreading).1
  · rw [keyword, keyword, hspelled.same gap rest hgap]
    cases hreading : spelled kind cs with
    | none => rfl
    | some reading =>
        have hle := hspelled.le reading hreading
        have hnext : ((cs ++ gap :: rest)[reading.2]?).any opensWordPart =
            (cs[reading.2]?).any opensWordPart := by
          rcases Nat.lt_or_eq_of_le hle with hlt | heq
          · rw [List.getElem?_append_left hlt]
          · simp [heq, hstops.of_isGap hgap]
        simp [Option.filter, hnext]

theorem settledAt_of_mem_plainReaders {reader : Reader} (h : reader ∈ plainReaders)
    (cs : List Char) : SettledAt reader cs := by
  rcases mem_plainReaders h with ⟨kind, hkind, rfl⟩ | ⟨kind, hkind, rfl⟩ | rfl |
    ⟨kind, form, hform, rfl⟩
  · exact settledAt_keyword hkind cs
  · exact settledAt_spelled (List.mem_append_right _ hkind) cs
  · exact .ofForm _ (Form.Settled.cons (.one (by decide)) (.cons (.many (by decide)) .nil) cs)
  · exact .ofForm _ (Form.Settled.of_mem_numbers hform cs)

/-- The piece at the start of a text is no fault, and it is a token if nothing follows. -/
structure Finished (cs : List Char) : Prop where
  sound : ∀ kind, (longest cs).1 ≠ .fault kind
  inside : (∀ kind, (longest cs).1 ≠ .token kind) → (longest cs).2 < cs.length

namespace Finished

variable {c : Char} {cs : List Char}

theorem reading (h : Finished cs) : ∃ reader ∈ readers, reader cs = some (longest cs) := by
  rcases longest_mem cs with hmem | ⟨-, hlongest⟩
  · exact hmem
  · exact absurd (congrArg Prod.fst hlongest) (h.sound _)

theorem starts (h : Finished (c :: cs)) : ∃ reader ∈ readers,
    reader (c :: cs) = some (longest (c :: cs)) ∧ Starts reader c := by
  obtain ⟨reader, hreader, hreading⟩ := h.reading
  obtain ⟨-, c', rest, hcs, hstarts⟩ := starts_of_mem hreader hreading
  obtain rfl := (List.cons.inj hcs).1
  exact ⟨reader, hreader, hreading, hstarts⟩

/-- Where a reader skips all of the text, or faults on it, another one takes it for a token. -/
theorem exists_other_of_whole (h : Finished (c :: cs)) {reader : Reader}
    (hreader : reader ∈ readers) {kind : PieceKind} {n : Nat}
    (hwhole : reader (c :: cs) = some (kind, n)) (hkind : ∀ token, kind ≠ .token token)
    (hn : (c :: cs).length ≤ n) :
    ∃ other, other ≠ reader ∧ Starts other c ∧
      ∃ reading, other (c :: cs) = some reading ∧ n ≤ reading.2 := by
  have hle := le_longest hreader hwhole
  obtain ⟨other, -, hreading, hstarts⟩ := h.starts
  refine ⟨other, ?_, hstarts, _, hreading, hle⟩
  rintro rfl
  have hlongest := Option.some.inj (hwhole.symm.trans hreading)
  have hlt := h.inside fun token htoken => hkind token ((congrArg Prod.fst hlongest).trans htoken)
  exact Nat.not_lt.2 (Nat.le_trans hn hle) hlt

theorem settledAt_blanks (h : Finished (c :: cs)) : SettledAt blanks (c :: cs) := by
  refine .ofForm _ (.chain_cons (.one_cons _ c cs) fun n hn => ?_)
  obtain ⟨rfl, _, _, hcs, hc⟩ := Form.one_eq_some.1 hn
  obtain ⟨rfl, rfl⟩ := List.cons.inj hcs
  cases hall : cs.all isInlineBlank with
  | true =>
      have hwhole : blanks (c :: cs) = some (.blanks, 1 + cs.length) := by
        simp [blanks, ofForm, Form.chain, Form.one, Form.many_of_all hall, hc]
      obtain ⟨other, hne, hstarts, -⟩ := h.exists_other_of_whole (by simp [readers, blanks]) hwhole
        (by simp) (by simp only [List.length_cons]; omega)
      exact absurd (hstarts.eq_blanks hc) hne
  | false =>
      obtain ⟨d, hd, hstop⟩ := List.all_eq_false.1 hall
      exact .chain_cons (.many_of_mem hd (by simpa using hstop)) fun n _ => .chain_nil _

theorem settledAt_lineComment (h : Finished (c :: cs)) : SettledAt lineComment (c :: cs) := by
  refine .ofForm _ (.chain_cons (Form.Settled.literal (by decide) _) fun n hn => ?_)
  obtain ⟨rfl, rest, hrest⟩ := Form.literal_eq_some.1 hn
  obtain ⟨rfl, rfl⟩ := List.cons.inj hrest
  cases hall : rest.all (· != '\n') with
  | true =>
      have hwhole : lineComment ('/' :: '/' :: rest) = some (.lineComment, 2 + rest.length) := by
        simp [lineComment, ofForm, Form.lineComment, Form.chain, Form.literal,
          Form.many_of_all hall]
      have hlength : ('/' :: '/' :: rest).length ≤ 2 + rest.length := by
        simp only [List.length_cons]
        omega
      obtain ⟨other, hne, hstarts, reading, hreading, hle⟩ :=
        h.exists_other_of_whole (by simp [readers, lineComment]) hwhole (by simp) hlength
      rcases hstarts.of_slash with hplain | rfl | rfl
      · have hone := le_one_of_mem_plainReaders hplain (by decide) hreading
        omega
      · exact absurd rfl hne
      · cases hreading
  | false =>
      obtain ⟨d, hd, hstop⟩ := List.all_eq_false.1 hall
      exact .chain_cons (.many_of_mem hd (by simpa using hstop)) fun n _ => .chain_nil _

theorem settledAt_blockComment (h : Finished (c :: cs)) : SettledAt blockComment (c :: cs) := by
  by_cases hopening : c = '/' ∧ cs.head? = some '*'
  · obtain ⟨rfl, hstar⟩ := hopening
    obtain ⟨rest, rfl⟩ := List.head?_eq_some_iff.1 hstar
    cases hbody : Form.blockCommentBody rest with
    | some n =>
        refine ⟨fun reading hreading => ?_, fun gap rest' _ => ?_⟩
        · obtain ⟨-, hle⟩ := Form.closing?_append hbody []
          simp only [blockComment, hbody] at hreading
          obtain rfl := Option.some.inj hreading
          simp only [List.length_cons]
          omega
        · obtain ⟨hsame, -⟩ := Form.closing?_append hbody (gap :: rest')
          simp only [List.cons_append, blockComment, hbody]
          rw [Form.blockCommentBody, hsame]
    | none =>
        have hwhole : blockComment ('/' :: '*' :: rest) =
            some (.fault .unterminatedComment, 2 + rest.length) := by
          simp only [blockComment, hbody]
        -- an open comment takes all of the text, and no other reader takes more than the slash
        obtain ⟨other, hne, hstarts, reading, hreading, hle⟩ :=
          h.exists_other_of_whole (by simp [readers]) hwhole (by simp)
            (by simp only [List.length_cons]; omega)
        rcases hstarts.of_slash with hplain | rfl | rfl
        · have hone := le_one_of_mem_plainReaders hplain (by decide) hreading
          omega
        · cases hreading
        · exact absurd rfl hne
  · have hnone : ∀ cs', ¬(c = '/' ∧ cs'.head? = some '*') → blockComment (c :: cs') = none := by
      intro cs' hcs'
      unfold blockComment
      split
      case h_1 heq =>
        obtain ⟨rfl, rfl⟩ := List.cons.inj heq
        exact absurd ⟨rfl, rfl⟩ hcs'
      case h_2 => rfl
    refine .refuses (hnone cs hopening) fun gap rest hgap => hnone _ ?_
    rintro ⟨hc, hstar⟩
    cases cs with
    | nil =>
        obtain rfl := Option.some.inj hstar
        cases hgap
    | cons d cs => exact hopening ⟨hc, hstar⟩

theorem settledAt_names (h : Finished (c :: cs)) :
    SettledAt quotedName (c :: cs) ∧ SettledAt openName (c :: cs) := by
  by_cases hquote : c = '`'
  · subst hquote
    -- if the name were open, the longest reading would be a fault
    have hclosed : ∃ q rest, cs = q :: rest ∧ '`' ∈ rest := by
      obtain ⟨reader, hreader, hreading, hstarts⟩ := h.starts
      rcases hstarts.of_backQuote with rfl | rfl
      · obtain ⟨n, hn, -⟩ := ofForm_eq_some.1 hreading
        obtain ⟨_, _, hopening, hn, -⟩ := Form.chain_cons_eq_some.1 hn
        obtain ⟨rfl, -⟩ := Form.one_eq_some.1 hopening
        obtain ⟨_, _, hfirst, hn, -⟩ := Form.chain_cons_eq_some.1 hn
        obtain ⟨rfl, q, rest, hcs, -⟩ := Form.one_eq_some.1 hfirst
        obtain ⟨k, _, -, hn, -⟩ := Form.chain_cons_eq_some.1 hn
        obtain ⟨_, _, hclosing, -, -⟩ := Form.chain_cons_eq_some.1 hn
        obtain ⟨-, c, rest', hrest, hc⟩ := Form.one_eq_some.1 hclosing
        obtain rfl : c = '`' := of_decide_eq_true hc
        obtain rfl : cs = q :: rest := hcs
        have hmem : '`' ∈ (rest.drop k) := by
          change rest.drop k = _ at hrest
          simp [hrest]
        exact ⟨q, rest, rfl, List.mem_of_mem_drop hmem⟩
      · obtain ⟨n, -, hlongest⟩ := ofForm_eq_some.1 hreading
        exact absurd (congrArg Prod.fst hlongest).symm (h.sound _)
    obtain ⟨q, rest, rfl, hmem⟩ := hclosed
    have hstop : isQuotedPart '`' = false := by decide
    refine ⟨.ofForm _ (.chain_cons (.one_cons _ _ _) fun n hn => ?_),
      .ofForm _ (.chain_cons (.one_cons _ _ _) fun n hn => ?_)⟩
    all_goals obtain ⟨rfl, -⟩ := Form.one_eq_some.1 hn
    · refine .chain_cons (.one_cons _ q rest) fun n hn => ?_
      obtain ⟨rfl, -⟩ := Form.one_eq_some.1 hn
      have hclosing : Form.Settled (Form.chain [Form.one (· = '`')]) :=
        .cons (.one (by decide)) .nil
      exact .chain_cons (.many_of_mem hmem hstop) fun n _ => hclosing _
    · exact .chain_cons (.many_of_mem (List.mem_cons_of_mem q hmem) hstop) fun n _ => .chain_nil _
  · have hnone : ∀ n, Form.one (· = '`') (c :: cs) ≠ some n := by
      intro n hn
      obtain ⟨-, _, _, hcs, hc⟩ := Form.one_eq_some.1 hn
      obtain rfl := (List.cons.inj hcs).1
      exact hquote (of_decide_eq_true hc)
    exact ⟨.ofForm _ (.chain_cons (.one_cons _ c cs) fun n hn => absurd hn (hnone n)),
      .ofForm _ (.chain_cons (.one_cons _ c cs) fun n hn => absurd hn (hnone n))⟩

theorem settledAt_character (h : Finished (c :: cs)) : SettledAt characterLiteral (c :: cs) := by
  refine .ofForm _ (Form.settledAt_character fun hlonely => ?_)
  obtain ⟨rfl, rfl⟩ := List.cons.inj hlonely
  obtain ⟨reader, hreader, hreading, hstarts⟩ := h.starts
  rw [hstarts.of_quote] at hreading
  cases hreading

theorem settledAt_stringLiteral (h : Finished (c :: cs)) : SettledAt stringLiteral (c :: cs) := by
  by_cases hquote : c = '"'
  · subst hquote
    -- an open string is a fault, and a raw string opens with an empty one
    have hclosed : ∃ n, Form.stringBody cs = .ok n := by
      obtain ⟨reader, hreader, hreading, hstarts⟩ := h.starts
      rcases hstarts.of_doubleQuote with rfl | rfl
      · unfold stringLiteral at hreading
        cases hbody : Form.stringBody cs with
        | ok n => exact ⟨n, rfl⟩
        | error n =>
            simp only [hbody] at hreading
            exact absurd (congrArg Prod.fst (Option.some.inj hreading)).symm (h.sound _)
      · unfold rawStringLiteral at hreading
        split at hreading
        case h_1 heq =>
          obtain rfl := (List.cons.inj heq).2
          exact ⟨1, rfl⟩
        case h_2 => cases hreading
    obtain ⟨n, hbody⟩ := hclosed
    refine ⟨fun reading hreading => ?_, fun gap rest _ => ?_⟩
    · obtain ⟨-, hle⟩ := Form.stringEnd_append hbody []
      simp only [stringLiteral, hbody] at hreading
      obtain rfl := Option.some.inj hreading
      simp only [List.length_cons]
      omega
    · obtain ⟨hsame, -⟩ := Form.stringEnd_append hbody (gap :: rest)
      simp only [List.cons_append, stringLiteral, hbody]
      rw [Form.stringBody, hsame]
  · have hnone : ∀ cs', stringLiteral (c :: cs') = none := by
      intro cs'
      unfold stringLiteral
      split
      case h_1 heq => exact absurd (List.cons.inj heq).1 hquote
      case h_2 => rfl
    exact .refuses (hnone cs) fun gap rest _ => hnone _

theorem settledAt_rawStringLiteral (h : Finished (c :: cs)) :
    SettledAt rawStringLiteral (c :: cs) := by
  by_cases hopening : c = '"' ∧ ∃ rest, cs = '"' :: '"' :: rest
  · obtain ⟨rfl, rest, rfl⟩ := hopening
    cases hbody : Form.rawStringBody rest with
    | some n =>
        refine ⟨fun reading hreading => ?_, fun gap rest' hgap => ?_⟩
        · obtain ⟨-, hle⟩ := Form.rawStringEnd_append hbody (show isGap ' ' = true from rfl) []
          simp only [rawStringLiteral, hbody] at hreading
          obtain rfl := Option.some.inj hreading
          simp only [List.length_cons]
          omega
        · obtain ⟨hsame, -⟩ := Form.rawStringEnd_append hbody hgap rest'
          simp only [List.cons_append, rawStringLiteral, hbody]
          rw [Form.rawStringBody, hsame]
    | none =>
        have hwhole : rawStringLiteral ('"' :: '"' :: '"' :: rest) =
            some (.fault .unterminatedRawString, 3 + rest.length) := by
          simp only [rawStringLiteral, hbody]
        -- an open raw string takes all of the text, and a plain one only its first two quotes
        obtain ⟨other, hne, hstarts, reading, hreading, hle⟩ :=
          h.exists_other_of_whole (by simp [readers]) hwhole (by simp)
            (by simp only [List.length_cons]; omega)
        rcases hstarts.of_doubleQuote with rfl | rfl
        · have hempty : stringLiteral ('"' :: '"' :: '"' :: rest) =
              some (.token .stringLiteral, 2) := rfl
          have hlongest := congrArg Prod.snd (Option.some.inj (hempty.symm.trans hreading))
          omega
        · exact absurd rfl hne
  · have hnone : ∀ cs', ¬(c = '"' ∧ ∃ rest, cs' = '"' :: '"' :: rest) →
        rawStringLiteral (c :: cs') = none := by
      intro cs' hcs'
      unfold rawStringLiteral
      split
      case h_1 rest heq =>
        obtain ⟨rfl, rfl⟩ := List.cons.inj heq
        exact absurd ⟨rfl, rest, rfl⟩ hcs'
      case h_2 => rfl
    refine .refuses (hnone cs hopening) fun gap rest hgap => hnone _ ?_
    rintro ⟨hc, rest', hquotes⟩
    exact hopening ⟨hc, Form.quotes_of_append hgap hquotes⟩

theorem settledAt (h : Finished (c :: cs)) {reader : Reader} (hreader : reader ∈ readers) :
    SettledAt reader (c :: cs) := by
  rcases mem_readers hreader with hplain | rfl | rfl | rfl | rfl | rfl | rfl | rfl | rfl | rfl
  · exact settledAt_of_mem_plainReaders hplain _
  · exact h.settledAt_blanks
  · exact .ofForm _ (.one_cons _ c cs)
  · exact h.settledAt_lineComment
  · exact h.settledAt_blockComment
  · exact h.settledAt_names.1
  · exact h.settledAt_character
  · exact h.settledAt_stringLiteral
  · exact h.settledAt_rawStringLiteral
  · exact h.settledAt_names.2

/-- The piece at the start of a text stays what it is if the text goes on behind a gap. -/
theorem atStart_append (h : Finished (c :: cs)) {gap : Char} (hgap : isGap gap = true)
    (rest : List Char) : atStart (c :: cs ++ gap :: rest) = atStart (c :: cs) := by
  obtain ⟨reader, hreader, hreading⟩ := h.reading
  have hle := (h.settledAt hreader).le _ hreading
  have hsame : longest (c :: cs ++ gap :: rest) = longest (c :: cs) :=
    longest_congr fun reader hreader => (h.settledAt hreader).same gap rest hgap
  rw [atStart, atStart, hsame]
  exact congrArg _ (List.take_append_of_le_length hle)

end Finished

/-! ## Pieces of a text -/

theorem cut_eq (cs : List Char) (skipped : Nat) (found : Array Piece) :
    cut cs skipped found = found ++ ofText (cs.drop skipped) := by
  induction cs generalizing skipped found with
  | nil => simp [cut, ofText]
  | cons c cs ih =>
      cases skipped with
      | zero =>
          rw [List.drop_zero, ofText, cut, cut, ih, ih]
          simp
      | succ skipped =>
          rw [List.drop_succ_cons, cut]
          exact ih skipped found

theorem text_pos (c : Char) (cs : List Char) : 0 < (atStart (c :: cs)).text.length := by
  have hpos := longest_pos (c :: cs)
  simp only [atStart, List.length_take, List.length_cons]
  omega

/-- Induction on the pieces of a text. -/
@[elab_as_elim]
theorem pieceInduction {motive : List Char → Prop} (nil : motive [])
    (cons : ∀ c cs, motive ((c :: cs).drop (atStart (c :: cs)).text.length) → motive (c :: cs))
    (cs : List Char) : motive cs := by
  generalize hn : cs.length = n
  induction n using Nat.strongRecOn generalizing cs with
  | ind n ih =>
      cases cs with
      | nil => exact nil
      | cons c cs =>
          have hpos := text_pos c cs
          have hlt : ((c :: cs).drop (atStart (c :: cs)).text.length).length < n := by
            rw [List.length_drop, ← hn]
            simp only [List.length_cons]
            omega
          apply cons
          exact ih _ hlt _ rfl

theorem ofText_cons (c : Char) (cs : List Char) :
    (ofText (c :: cs)).toList = atStart (c :: cs) ::
      (ofText ((c :: cs).drop (atStart (c :: cs)).text.length)).toList := by
  obtain ⟨n, hn⟩ := Nat.exists_eq_succ_of_ne_zero (Nat.ne_of_gt (text_pos c cs))
  rw [ofText, cut, cut_eq]
  simp [hn]

/-- No piece is a fault, and the last one is a token. -/
structure Complete (pieces : List Piece) : Prop where
  sound : ∀ piece ∈ pieces, ∀ kind, piece.kind ≠ .fault kind
  last : ∀ piece, pieces.getLast? = some piece → ∃ kind, piece.kind = .token kind

theorem Complete.tail {piece : Piece} {pieces : List Piece} (h : Complete (piece :: pieces)) :
    Complete pieces := by
  refine ⟨fun p hp => h.sound p (List.mem_cons_of_mem piece hp), fun p hp => h.last p ?_⟩
  cases pieces with
  | nil => cases hp
  | cons next pieces => simpa using hp

theorem Complete.finished {c : Char} {cs : List Char}
    (h : Complete (ofText (c :: cs)).toList) : Finished (c :: cs) := by
  rw [ofText_cons] at h
  refine ⟨h.sound _ List.mem_cons_self, fun hnot => ?_⟩
  refine Nat.lt_of_not_le fun hle => ?_
  have hrest : (c :: cs).drop (atStart (c :: cs)).text.length = [] := by
    rw [List.drop_eq_nil_iff, atStart, List.length_take, Nat.min_eq_right hle]
  rw [hrest] at h
  obtain ⟨kind, hkind⟩ := h.last _ rfl
  exact hnot kind hkind

/-- Behind a gap a text is cut as it is on its own. -/
theorem ofText_append {cs : List Char} (h : Complete (ofText cs).toList) {gap : Char}
    (hgap : isGap gap = true) (rest : List Char) :
    (ofText (cs ++ gap :: rest)).toList = (ofText cs).toList ++ (ofText (gap :: rest)).toList := by
  induction cs using pieceInduction with
  | nil => rfl
  | cons c cs ih =>
      have hstart := h.finished.atStart_append hgap rest
      have hle : (atStart (c :: cs)).text.length ≤ (c :: cs).length := by
        rw [atStart]
        exact List.length_take_le' _ _
      rw [ofText_cons] at h
      have hrest := ih h.tail
      rw [List.cons_append] at hstart ⊢
      rw [ofText_cons, ofText_cons, hstart, ← List.cons_append,
        List.drop_append_of_le_length hle, hrest, List.cons_append]

theorem text_ne_nil (cs : List Char) : ∀ piece ∈ (ofText cs).toList, piece.text ≠ [] := by
  induction cs using pieceInduction with
  | nil => exact fun _ hmem => nomatch hmem
  | cons c cs ih =>
      have hne := List.ne_nil_of_length_pos (text_pos c cs)
      rw [ofText_cons]
      exact List.forall_mem_cons.2 ⟨hne, ih⟩

theorem text_ofText (cs : List Char) : ((ofText cs).toList.flatMap (·.text)) = cs := by
  induction cs using pieceInduction with
  | nil => rfl
  | cons c cs ih =>
      have hprefix : (atStart (c :: cs)).text ++
          (c :: cs).drop (atStart (c :: cs)).text.length = c :: cs :=
        List.prefix_iff_eq_append.1 (List.take_prefix _ _)
      rw [ofText_cons, List.flatMap_cons, ih, hprefix]

end AnnotationScan.Piece
