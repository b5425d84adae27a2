import AnnotationScan.Proofs.Token.Comments
import AnnotationScan.Proofs.Token.Suffixes

/-!
# What the pieces of a text look like

The kind of a piece tells what its text looks like: blanks are a run of blanks, a comment is closed
or reaches the end of its line, and a kind with one spelling is spelled that way.  Every text is
read as pieces that look like that.
-/

namespace AnnotationScan

/-- The kinds of tokens whose spelling is not fixed. -/
def TokenKind.unspelled : List TokenKind :=
  [.integerLiteral, .floatLiteral, .characterLiteral, .stringLiteral, .rawStringLiteral,
    .identifier]

namespace Form

theorem chain_many_eq_some {form : Form} {holds : Char → Bool} {cs : List Char} {n : Nat} :
    chain [form, many holds] cs = some n ↔ ∃ length, form cs = some length ∧
      n = length + ((cs.drop length).takeWhile holds).length := by
  rw [chain_cons_eq_some]
  constructor
  · rintro ⟨length, more, hlength, hmany, rfl⟩
    refine ⟨length, hlength, congrArg _ ?_⟩
    simpa [chain, many] using hmany.symm
  · rintro ⟨length, hlength, rfl⟩
    exact ⟨length, _, hlength, by simp [chain, many], rfl⟩

theorem take_length_takeWhile (holds : Char → Bool) (cs : List Char) :
    cs.take (cs.takeWhile holds).length = cs.takeWhile holds :=
  (List.prefix_iff_eq_take.1 (List.takeWhile_prefix holds)).symm

theorem drop_length_takeWhile (holds : Char → Bool) (cs : List Char) :
    cs.drop (cs.takeWhile holds).length = cs.dropWhile holds :=
  List.append_cancel_left ((List.prefix_iff_eq_append.1 (List.takeWhile_prefix holds)).trans
    List.takeWhile_append_dropWhile.symm)

end Form

namespace Piece

/-- What a piece of each kind looks like in front of the characters `rest`. -/
inductive Shape (rest : List Char) : Piece → Prop
  | blanks {text : List Char} (hne : text ≠ []) (htext : ∀ c ∈ text, isInlineBlank c = true) :
      Shape rest ⟨.blanks, text⟩
  | lineFeed : Shape rest ⟨.lineFeed, ['\n']⟩
  | lineComment {line : List Char} (hline : '\n' ∉ line) (hrest : ∀ c ∈ rest.head?, c = '\n') :
      Shape rest ⟨.lineComment, '/' :: '/' :: line⟩
  | blockComment {body : List Char} (hbody : CommentRest body) :
      Shape rest ⟨.blockComment, '/' :: '*' :: body⟩
  | spelled {kind : TokenKind} (hkind : kind ∈ TokenKind.hardKeywords ++ TokenKind.signs) :
      Shape rest ⟨.token kind, (kind.spelling?.getD "").toList⟩
  | unspelled {kind : TokenKind} (hkind : kind ∈ TokenKind.unspelled) (text : List Char) :
      Shape rest ⟨.token kind, text⟩
  | fault (kind : FaultKind) (text : List Char) : Shape rest ⟨.fault kind, text⟩

namespace Shape

variable {cs : List Char} {reading : PieceKind × Nat}

theorem of_blanks (h : Piece.blanks cs = some reading) :
    Shape (cs.drop reading.2) ⟨reading.1, cs.take reading.2⟩ := by
  obtain ⟨n, hn, rfl⟩ := ofForm_eq_some.1 h
  obtain ⟨length, hone, rfl⟩ := Form.chain_many_eq_some.1 hn
  obtain ⟨rfl, c, rest, rfl, hc⟩ := Form.one_eq_some.1 hone
  have htext : (c :: rest).take (1 + (rest.takeWhile isInlineBlank).length) =
      c :: rest.takeWhile isInlineBlank := by
    rw [Nat.add_comm, List.take_succ_cons, Form.take_length_takeWhile]
  change Shape _ ⟨.blanks, (c :: rest).take (1 + (rest.takeWhile isInlineBlank).length)⟩
  rw [htext]
  refine .blanks (by simp) (List.forall_mem_cons.2 ⟨hc, fun d hd => ?_⟩)
  exact List.all_eq_true.1 List.all_takeWhile d hd

theorem of_lineComment (h : Piece.lineComment cs = some reading) :
    Shape (cs.drop reading.2) ⟨reading.1, cs.take reading.2⟩ := by
  obtain ⟨n, hn, rfl⟩ := ofForm_eq_some.1 h
  obtain ⟨length, hopening, rfl⟩ := Form.chain_many_eq_some.1 hn
  obtain ⟨rfl, rest, rfl⟩ := Form.literal_eq_some.1 hopening
  change Shape (List.drop (2 + (rest.takeWhile (· != '\n')).length) ('/' :: '/' :: rest))
    ⟨.lineComment, List.take (2 + (rest.takeWhile (· != '\n')).length) ('/' :: '/' :: rest)⟩
  rw [Nat.add_comm, List.take_succ_cons, List.take_succ_cons, List.drop_succ_cons,
    List.drop_succ_cons, Form.take_length_takeWhile, Form.drop_length_takeWhile]
  constructor
  · intro hfeed
    have hstop := List.all_eq_true.1 List.all_takeWhile '\n' hfeed
    simp at hstop
  · intro c hc
    have hhead := List.head?_dropWhile_not (· != '\n') rest
    rw [Option.mem_def.1 hc] at hhead
    simpa using hhead

theorem of_blockComment (h : Piece.blockComment cs = some reading) :
    Shape (cs.drop reading.2) ⟨reading.1, cs.take reading.2⟩ := by
  unfold Piece.blockComment at h
  split at h
  case h_1 cs =>
    split at h
    case h_1 length hbody =>
      obtain rfl := Option.some.inj h
      obtain ⟨text, rest, rfl, rfl, htext⟩ := Form.closes_of_closing? hbody
      dsimp only
      rw [Nat.zero_add, Nat.add_comm, List.take_succ_cons, List.take_succ_cons, List.take_left]
      exact .blockComment htext
    case h_2 =>
      obtain rfl := Option.some.inj h
      exact .fault _ _
  case h_2 => cases h

theorem of_spelled {kind : TokenKind} (hkind : kind ∈ TokenKind.hardKeywords ++ TokenKind.signs)
    (h : Piece.spelled kind cs = some reading) :
    Shape (cs.drop reading.2) ⟨reading.1, cs.take reading.2⟩ := by
  obtain ⟨n, hn, rfl⟩ := ofForm_eq_some.1 h
  obtain ⟨rfl, rest, rfl⟩ := Form.literal_eq_some.1 hn
  dsimp only
  rw [List.take_left]
  exact .spelled hkind

theorem of_unspelled {kind : TokenKind} {form : Form} (hkind : kind ∈ TokenKind.unspelled)
    (h : ofForm (.token kind) form cs = some reading) :
    Shape (cs.drop reading.2) ⟨reading.1, cs.take reading.2⟩ := by
  obtain ⟨n, -, rfl⟩ := ofForm_eq_some.1 h
  exact .unspelled hkind _

theorem of_reading {reader : Reader} (h : reader ∈ readers) (hreading : reader cs = some reading) :
    Shape (cs.drop reading.2) ⟨reading.1, cs.take reading.2⟩ := by
  simp only [readers, List.mem_append, List.mem_map, List.mem_cons, List.not_mem_nil, or_false] at h
  rcases h with (((((((rfl | rfl | rfl | rfl) | ⟨kind, hkind, rfl⟩) | rfl | rfl) |
    ⟨form, -, rfl⟩) | ⟨form, -, rfl⟩) | rfl | rfl | rfl) | ⟨kind, hkind, rfl⟩) | rfl
  · exact of_blanks hreading
  · obtain ⟨n, hn, rfl⟩ := ofForm_eq_some.1 hreading
    obtain ⟨rfl, c, rest, rfl, hc⟩ := Form.one_eq_some.1 hn
    obtain rfl : c = '\n' := of_decide_eq_true hc
    exact .lineFeed
  · exact of_lineComment hreading
  · exact of_blockComment hreading
  · have hspelled := (Option.filter_eq_some_iff.1 hreading).1
    exact of_spelled (List.mem_append_left _ hkind) hspelled
  · exact of_unspelled (by decide) hreading
  · exact of_unspelled (by decide) hreading
  · exact of_unspelled (by decide) hreading
  · exact of_unspelled (by decide) hreading
  · exact of_unspelled (by decide) hreading
  · unfold stringLiteral at hreading
    split at hreading
    case h_1 cs =>
      split at hreading
      all_goals obtain rfl := Option.some.inj hreading
      · exact .unspelled (by decide) _
      · exact .fault _ _
    case h_2 => cases hreading
  · unfold rawStringLiteral at hreading
    split at hreading
    case h_1 cs =>
      split at hreading
      all_goals obtain rfl := Option.some.inj hreading
      · exact .unspelled (by decide) _
      · exact .fault _ _
    case h_2 => cases hreading
  · exact of_spelled (List.mem_append_right _ hkind) hreading
  · obtain ⟨n, -, rfl⟩ := ofForm_eq_some.1 hreading
    exact .fault _ _

end Shape

theorem shape_atStart (cs : List Char) :
    Shape (cs.drop (atStart cs).text.length) (atStart cs) := by
  have hdrop : cs.drop (cs.take (longest cs).2).length = cs.drop (longest cs).2 := by
    rw [List.length_take]
    rcases Nat.le_total (longest cs).2 cs.length with hle | hle
    · rw [Nat.min_eq_left hle]
    · rw [Nat.min_eq_right hle, List.drop_length, List.drop_eq_nil_of_le hle]
  change Shape (cs.drop (cs.take (longest cs).2).length) _
  rw [hdrop]
  rcases longest_mem cs with ⟨reader, hreader, hreading⟩ | ⟨-, hlongest⟩
  · exact .of_reading hreader hreading
  · rw [atStart, hlongest]
    exact .fault _ _

theorem atStart_of_mem {cs : List Char} {front back : List Piece} {piece : Piece}
    (h : (ofText cs).toList = front ++ piece :: back) :
    atStart (piece.text ++ back.flatMap (·.text)) = piece := by
  obtain ⟨rest, -, hrest⟩ := ofText_eq_append h
  have htext := text_ofText rest
  rw [hrest, List.flatMap_cons] at htext
  rw [htext]
  cases rest with
  | nil => cases hrest
  | cons c rest =>
      rw [ofText_cons] at hrest
      exact (List.cons.inj hrest).1

/-- Every piece of a text has its shape in front of the pieces behind it. -/
theorem shape_of_mem {cs : List Char} {front back : List Piece} {piece : Piece}
    (h : (ofText cs).toList = front ++ piece :: back) :
    Shape (back.flatMap (·.text)) piece := by
  have hshape := shape_atStart (piece.text ++ back.flatMap (·.text))
  rwa [atStart_of_mem h, List.drop_left] at hshape

end Piece
end AnnotationScan
