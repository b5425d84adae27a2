import AnnotationScan.Proofs.Faults
import AnnotationScan.Proofs.Token.StringBodies

/-!
# String literals and their grammar

The body of a string literal reaches as far as its grammar says; where the grammar derives no
beginning of the text, the literal is broken and takes the rest of its line.  So the malformed token
of a broken literal ends at a line feed or at the end of the text.
-/

namespace AnnotationScan

open StringByte

namespace Form

/-- The answer on a string body, counted in bytes. -/
def bodyBytes (cs : List Char) : Except Nat Nat :=
  match stringBody cs with
  | .ok n => .ok (Text.byteLength (cs.take n))
  | .error n => .error (Text.byteLength (cs.take n))

/-- The answer on a string body is the one beginning of the text that derives a body, which ends
with a character of the first line, or the length of that line. -/
structure DerivesBody (cs : List Char) : Prop where
  ok_iff : ∀ n, bodyBytes cs = .ok n ↔
    n ≤ (Text.bytes cs).length ∧ StringBody ((Text.bytes cs).take n)
  unique : ∀ n m, n ≤ (Text.bytes cs).length → m ≤ (Text.bytes cs).length →
    StringBody ((Text.bytes cs).take n) → StringBody ((Text.bytes cs).take m) → n = m
  inside : ∀ n, bodyBytes cs = .ok n → n ≤ (Text.bytes cs).idxOf lineFeed ∧
    ∃ front, front <+: cs ∧ n = Text.byteLength front
  error : (∀ n ≤ (Text.bytes cs).length, ¬StringBody ((Text.bytes cs).take n)) →
    bodyBytes cs = .error ((Text.bytes cs).idxOf lineFeed)

theorem byteLength_line (cs : List Char) :
    Text.byteLength (line cs) = (Text.bytes cs).idxOf lineFeed := by
  induction cs with
  | nil => rfl
  | cons c cs ih =>
      by_cases hc : c = '\n'
      · subst hc
        rfl
      · have hfeed : lineFeed ∉ String.utf8EncodeChar c := by
          rcases Nat.lt_or_ge c.toNat 128 with hascii | hascii
          · rw [Text.utf8EncodeChar_ascii hascii, List.mem_singleton]
            exact fun heq => hc (Text.toUInt8_inj hascii (by decide) heq.symm)
          · exact fun hmem => absurd (Text.le_of_mem_utf8EncodeChar hascii hmem) (by decide)
        rw [show c :: cs = [c] ++ cs from rfl, line_append (by simp [Ne.symm hc]),
          Text.byteLength_append, Text.bytes_append, ih]
        simp [List.idxOf_append_of_notMem, hfeed]

theorem take_length_line (cs : List Char) : cs.take (line cs).length = line cs :=
  take_length_takeWhile _ cs

theorem derivesBody (cs : List Char) : DerivesBody cs := by
  have hfinds := finds_stringEnd (.text []) cs 0
  change Finds _ _ _ (stringBody cs) at hfinds
  cases hbody : stringBody cs with
  | ok n =>
      rw [hbody] at hfinds
      obtain ⟨front, hline, rfl, hfront⟩ := hfinds
      simp only [demands_body] at hfront
      have hprefix : front <+: cs := hline.trans (List.takeWhile_prefix _)
      have htake : cs.take (0 + front.length) = front := by
        rw [Nat.zero_add]
        exact (List.prefix_iff_eq_take.1 hprefix).symm
      have hbytes : bodyBytes cs = .ok (Text.byteLength front) := by
        simp only [bodyBytes, hbody, htake]
      have hle : Text.byteLength front ≤ (Text.bytes cs).length := by
        obtain ⟨rest, rfl⟩ := hprefix
        simp
      -- the scan has one end, and a derivation of another prefix would demand another one
      have hlength : ∀ m ≤ (Text.bytes cs).length, StringBody ((Text.bytes cs).take m) →
          m = Text.byteLength front := by
        intro m hm hderives
        have heq := congrArg List.length ((hfront _ (List.take_prefix _ _)).1 hderives)
        rwa [List.length_take, Nat.min_eq_left hm, Text.length_bytes] at heq
      have hderives : StringBody ((Text.bytes cs).take (Text.byteLength front)) := by
        rw [hfront _ (List.take_prefix _ _)]
        exact Text.take_bytes_length hprefix
      refine ⟨fun m => ⟨fun hm => ?_, fun ⟨hm, hbody⟩ => ?_⟩, fun n m hn hm hnbody hmbody => ?_,
        fun m hm => ?_, fun hnone => ?_⟩
      · obtain rfl := Except.ok.inj (hbytes.symm.trans hm)
        exact ⟨hle, hderives⟩
      · rw [hlength m hm hbody, hbytes]
      · rw [hlength n hn hnbody, hlength m hm hmbody]
      · obtain rfl := Except.ok.inj (hbytes.symm.trans hm)
        refine ⟨?_, front, hprefix, rfl⟩
        obtain ⟨rest, hrest⟩ := hline
        rw [← byteLength_line, ← hrest, Text.byteLength_append]
        exact Nat.le_add_right _ _
      · exact absurd hderives (hnone _ hle)
  | error n =>
      rw [hbody] at hfinds
      obtain ⟨rfl, hnone⟩ := hfinds
      simp only [demands_body] at hnone
      have hopen : ∀ m, ¬StringBody ((Text.bytes cs).take m) := fun m =>
        hnone _ (List.take_prefix m _)
      have hbytes : bodyBytes cs = .error ((Text.bytes cs).idxOf lineFeed) := by
        simp only [bodyBytes, hbody, Nat.zero_add, take_length_line, byteLength_line]
      refine ⟨fun m => ⟨fun hm => ?_, fun hm => absurd hm.2 (hopen m)⟩,
        fun n m _ _ hn _ => absurd hn (hopen n), fun m hm => ?_, fun _ => hbytes⟩
      · cases hbytes.symm.trans hm
      · cases hbytes.symm.trans hm

end Form

namespace Piece

/-- Only the rest of a line behind a quote is a broken string literal. -/
theorem unterminated_of_mem {reader : Reader} (h : reader ∈ readers) {cs : List Char} {n : Nat}
    (hreading : reader cs = some (.fault .unterminatedString, n)) :
    ∃ body length, cs = '"' :: body ∧ Form.stringBody body = .error length ∧ n = 1 + length := by
  simp only [readers, List.mem_append, List.mem_map, List.mem_cons, List.not_mem_nil, or_false] at h
  rcases h with (((((((rfl | rfl | rfl | rfl) | ⟨kind, -, rfl⟩) | rfl | rfl) |
    ⟨form, -, rfl⟩) | ⟨form, -, rfl⟩) | rfl | rfl | rfl) | ⟨kind, -, rfl⟩) | rfl
  · cases kind_of_ofForm hreading
  · cases kind_of_ofForm hreading
  · cases kind_of_ofForm hreading
  · unfold blockComment at hreading
    split at hreading
    case h_1 => split at hreading <;> cases hreading
    case h_2 => cases hreading
  · cases kind_of_ofForm (Option.filter_eq_some_iff.1 hreading).1
  · cases kind_of_ofForm hreading
  · cases kind_of_ofForm hreading
  · cases kind_of_ofForm hreading
  · cases kind_of_ofForm hreading
  · cases kind_of_ofForm hreading
  · unfold stringLiteral at hreading
    split at hreading
    case h_1 body =>
      split at hreading
      case h_1 => cases hreading
      case h_2 length hlength =>
        exact ⟨body, length, rfl, hlength, (Prod.mk.inj (Option.some.inj hreading)).2.symm⟩
    case h_2 => cases hreading
  · unfold rawStringLiteral at hreading
    split at hreading
    case h_1 => split at hreading <;> cases hreading
    case h_2 => cases hreading
  · cases kind_of_ofForm hreading
  · cases kind_of_ofForm hreading

theorem exists_reading {cs text : List Char} {kind : PieceKind} (h : atStart cs = ⟨kind, text⟩)
    (hkind : kind ≠ .fault .unexpectedCharacter) :
    ∃ reader ∈ readers, ∃ n, reader cs = some (kind, n) ∧ text = cs.take n := by
  obtain ⟨rfl, rfl⟩ := Piece.mk.inj h
  rcases longest_mem cs with ⟨reader, hreader, hreading⟩ | ⟨-, hnone⟩
  · exact ⟨reader, hreader, _, hreading, rfl⟩
  · exact absurd (congrArg Prod.fst hnone) hkind

/-- A broken string literal is a quote and the rest of its line. -/
theorem atStart_unterminated {cs text : List Char}
    (h : atStart cs = ⟨.fault .unterminatedString, text⟩) :
    ∃ body, cs = '"' :: body ∧ text = '"' :: Form.line body ∧
      ∀ n ≤ (Text.bytes body).length, ¬StringBody ((Text.bytes body).take n) := by
  obtain ⟨reader, hreader, n, hreading, rfl⟩ := exists_reading h nofun
  obtain ⟨body, length, rfl, hbody, rfl⟩ := unterminated_of_mem hreader hreading
  have hfinds := Form.finds_stringEnd (.text []) body 0
  change Form.Finds _ _ _ (Form.stringBody body) at hfinds
  rw [hbody] at hfinds
  obtain ⟨rfl, hopen⟩ := hfinds
  simp only [Form.demands_body] at hopen
  refine ⟨body, rfl, ?_, fun n _ => hopen _ (List.take_prefix n _)⟩
  rw [Nat.zero_add, Nat.add_comm, List.take_succ_cons, Form.take_length_line]

end Piece

/-- A fault that takes a quote and the rest of its line, where no string body begins behind the
quote. -/
structure Fault.TakesLine (fault : Fault) (front line back : List Char) : Prop where
  span_eq : fault.span = ⟨Text.byteLength front, Text.byteLength (front ++ '"' :: line)⟩
  line_eq : '\n' ∉ line
  back_eq : ∀ c ∈ back.head?, c = '\n'
  open_body : ∀ n ≤ (Text.bytes (line ++ back)).length,
    ¬StringBody ((Text.bytes (line ++ back)).take n)

namespace Tokenized

theorem Progress.fault_of_read {progress : Progress} {pieces : List Piece} {fault : Fault}
    (h : fault ∈ (progress.read pieces).faults) : fault ∈ progress.faults ∨
      ∃ front text back, pieces = front ++ ⟨.fault fault.kind, text⟩ :: back ∧
        fault.span = ⟨progress.offset + Piece.bytes front,
          progress.offset + Piece.bytes front + Text.byteLength text⟩ := by
  induction pieces generalizing progress with
  | nil => exact .inl h
  | cons piece pieces ih =>
      have hoffset : (progress.add piece).offset = progress.offset + piece.size := by
        obtain ⟨kind, text⟩ := piece
        cases kind <;> rfl
      rcases ih h with hadd | ⟨front, text, back, rfl, hspan⟩
      · obtain ⟨kind, text⟩ := piece
        cases kind with
        | token kind => exact .inl hadd
        | blanks | lineFeed | lineComment | blockComment => exact .inl hadd
        | fault kind =>
            rcases Array.mem_push.1 hadd with hmem | rfl
            · exact .inl hmem
            · exact .inr ⟨[], text, pieces, rfl, rfl⟩
      · refine .inr ⟨piece :: front, text, back, rfl, ?_⟩
        rw [hspan, hoffset, Piece.bytes_cons, Nat.add_assoc]

/-- String bodies are read as their grammar says, and a broken literal of a text is a malformed
token over the rest of its line. -/
theorem stringBody_derives (source : String) : (∀ cs, Form.DerivesBody cs) ∧
    ∀ fault ∈ (ofSource source).faults, fault.kind = .unterminatedString →
      (∃ front line back, source.toList = front ++ '"' :: (line ++ back) ∧
        fault.TakesLine front line back) ∧
      ∃ token ∈ (ofSource source).tokens.malformed, token.span = fault.span := by
  refine ⟨Form.derivesBody, fun fault hfault hkind => ⟨?_, ?_⟩⟩
  · rw [faults_ofSource] at hfault
    rcases Progress.fault_of_read hfault with hnone | ⟨before, text, after, hpieces, hspan⟩
    · exact absurd hnone (Array.not_mem_empty _)
    · rw [hkind] at hpieces
      obtain ⟨body, hbody, rfl, hopen⟩ := Piece.atStart_unterminated (Piece.atStart_of_mem hpieces)
      have htext := Piece.text_ofText source.toList
      rw [hpieces, List.flatMap_append, List.flatMap_cons, hbody] at htext
      have hline : Form.line body ++ body.dropWhile (· ≠ '\n') = body :=
        List.takeWhile_append_dropWhile
      refine ⟨before.flatMap (·.text), Form.line body, body.dropWhile (· ≠ '\n'),
        ?_, ?_, ?_, ?_, ?_⟩
      · rw [hline, htext]
      · rw [hspan]
        simp [Piece.bytes]
      · intro hmem
        have hne := List.all_eq_true.1 List.all_takeWhile _ hmem
        simp at hne
      · intro c hc
        have hhead := List.head?_dropWhile_not (· ≠ '\n') body
        rw [Option.mem_def.1 hc] at hhead
        simpa using hhead
      · rw [hline]
        exact hopen
  · have hspan := List.mem_map_of_mem (f := Fault.span) (Array.mem_toList_iff.2 hfault)
    rw [spans_faults] at hspan
    exact List.mem_map.1 hspan

/-- A literal that is cut off behind an escaped quote. -/
theorem stringBody_derives_escapedQuote :
    (⟨.unterminatedString, ⟨3, 8⟩⟩ : Fault) ∈ (ofSource "@A(\"é\\\"\n)").faults ∧
      ∃ token ∈ (ofSource "@A(\"é\\\"\n)").tokens.malformed, token.span = ⟨3, 8⟩ := by
  have hfault : (⟨.unterminatedString, ⟨3, 8⟩⟩ : Fault) ∈
      (ofSource "@A(\"é\\\"\n)").faults := by
    decide +kernel
  exact ⟨hfault, ((stringBody_derives "@A(\"é\\\"\n)").2 _ hfault rfl).2⟩

end Tokenized
end AnnotationScan
