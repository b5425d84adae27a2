import AnnotationScan.Proofs.Token.Locality
import AnnotationScan.Proofs.Token.StringGrammar
import AnnotationScan.Text.Slice

/-!
# The scanner of string bodies and its grammar

The scan of a string body counts characters, the grammar speaks of bytes.  A place of the scan
stands for a demand on the bytes behind it, and each step of the scan takes a word of bytes that
turns one demand into the next, while no beginning of the word meets it.  So a scan ends at the one
beginning of the text that derives a body, or else in front of the first line feed.
-/

namespace AnnotationScan

open StringByte

/-! ## Bytes of a text -/

namespace Text

def bytes (cs : List Char) : List UInt8 := cs.flatMap String.utf8EncodeChar

variable {c d : Char} {cs : List Char}

@[simp] theorem bytes_nil : bytes [] = [] := rfl

@[simp] theorem bytes_cons (c : Char) (cs : List Char) :
    bytes (c :: cs) = String.utf8EncodeChar c ++ bytes cs := rfl

@[simp] theorem bytes_append (a b : List Char) : bytes (a ++ b) = bytes a ++ bytes b :=
  List.flatMap_append

@[simp] theorem length_bytes (cs : List Char) : (bytes cs).length = byteLength cs := by
  induction cs with
  | nil => rfl
  | cons c cs ih =>
      rw [bytes_cons, List.length_append, String.length_utf8EncodeChar, ih, byteLength]

theorem take_bytes_length {front : List Char} (h : front <+: cs) :
    (bytes cs).take (byteLength front) = bytes front := by
  obtain ⟨rest, rfl⟩ := h
  rw [bytes_append, ← length_bytes, List.take_left]

theorem utf8EncodeChar_ascii (h : c.toNat < 128) : String.utf8EncodeChar c = [c.toUInt8] := by
  refine String.utf8EncodeChar_eq_singleton (Char.utf8Size_eq_one_iff.2 ?_)
  rw [UInt32.le_iff_toNat_le]
  exact Nat.le_of_lt_succ h

theorem le_of_mem_utf8EncodeChar (h : 128 ≤ c.toNat) {b : UInt8}
    (hb : b ∈ String.utf8EncodeChar c) : 128 ≤ b.toNat := by
  have hval : ¬c.val.toNat ≤ 127 := Nat.not_le.2 h
  rw [String.utf8EncodeChar.eq_1, if_neg hval] at hb
  split at hb
  case isTrue =>
    simp only [List.mem_cons, List.not_mem_nil, or_false] at hb
    rcases hb with rfl | rfl <;> simp <;> omega
  case isFalse =>
    split at hb <;> simp only [List.mem_cons, List.not_mem_nil, or_false] at hb
    · rcases hb with rfl | rfl | rfl <;> simp <;> omega
    · rcases hb with rfl | rfl | rfl | rfl <;> simp <;> omega

theorem toUInt8_inj (hc : c.toNat < 128) (hd : d.toNat < 128) (h : c.toUInt8 = d.toUInt8) :
    c = d := by
  have hnat := congrArg UInt8.toNat h
  change c.toNat % 256 = d.toNat % 256 at hnat
  rw [Nat.mod_eq_of_lt (by omega), Nat.mod_eq_of_lt (by omega)] at hnat
  exact Char.ext (UInt32.toNat_inj.1 hnat)

/-- The byte of an ASCII character is met only where that character stands. -/
theorem eq_of_bytes_cons {rest : List UInt8} (hd : d.toNat < 128)
    (h : bytes (c :: cs) = d.toUInt8 :: rest) : c = d := by
  rcases Nat.lt_or_ge c.toNat 128 with hc | hc
  · rw [bytes_cons, utf8EncodeChar_ascii hc, List.singleton_append] at h
    exact toUInt8_inj hc hd (List.cons.inj h).1
  · have hmem : d.toUInt8 ∈ String.utf8EncodeChar c := by
      obtain ⟨_, rest', hencode⟩ :=
        List.exists_cons_of_ne_nil (String.utf8EncodeChar_ne_nil (c := c))
      rw [bytes_cons, hencode, List.cons_append] at h
      rw [hencode, (List.cons.inj h).1]
      exact List.mem_cons_self
    have hle := le_of_mem_utf8EncodeChar hc hmem
    change 128 ≤ d.toNat % 256 at hle
    omega

end Text

namespace Form

/-! ## Places and demands -/

/-- What the place behind a string body or a template demands of the rest of the text. -/
def Demands : StringPlace → List UInt8 → Prop
  | .text [] => BodyThen (· = [])
  | .text (braces :: outer) => BodyThen (Demands (.template braces outer))
  | .template 0 outer => ItemsThen (Demands (.text outer))
  | .template (braces + 1) outer => ItemsThen (Demands (.template braces outer))
termination_by place => match place with
  | .text outer => (outer.length, 0)
  | .template braces outer => (outer.length, braces + 1)

theorem demands_body {bytes : List UInt8} : Demands (.text []) bytes ↔ StringBody bytes := by
  rw [Demands]
  constructor
  · rintro ⟨inner, rest, rfl, hinner, rfl⟩
    rwa [List.append_nil]
  · exact fun h => ⟨bytes, [], (List.append_nil _).symm, h, rfl⟩

theorem exists_bodyThen (outer : List Nat) : ∃ next, Demands (.text outer) = BodyThen next := by
  cases outer <;> exact ⟨_, by rw [Demands]⟩

theorem exists_itemsThen (braces : Nat) (outer : List Nat) :
    ∃ next, Demands (.template braces outer) = ItemsThen next := by
  cases braces <;> exact ⟨_, by rw [Demands]⟩

variable {place next : StringPlace} {outer : List Nat} {bytes behind word : List UInt8} {b : UInt8}

theorem not_demands_nil (place : StringPlace) : ¬Demands place [] := by
  cases place with
  | text outer =>
      obtain ⟨next, hnext⟩ := exists_bodyThen outer
      exact hnext ▸ BodyThen.not_nil
  | template braces outer =>
      obtain ⟨next, hnext⟩ := exists_itemsThen braces outer
      exact hnext ▸ ItemsThen.not_nil

theorem not_demands_lineFeed (place : StringPlace) : ¬Demands place (lineFeed :: bytes) := by
  cases place with
  | text outer =>
      obtain ⟨next, hnext⟩ := exists_bodyThen outer
      exact hnext ▸ BodyThen.not_lineFeed
  | template braces outer =>
      obtain ⟨next, hnext⟩ := exists_itemsThen braces outer
      exact hnext ▸ ItemsThen.not_lineFeed

/-- A place that takes a byte for what it is, whatever stands behind. -/
def Indifferent (place : StringPlace) (b : UInt8) : Prop :=
  b ≠ quote ∧ b ≠ lineFeed ∧ match place with
    | .text _ => b ≠ backslash
    | .template _ _ => b ≠ openBrace ∧ b ≠ closeBrace

theorem demands_cons (h : Indifferent place b)
    (htemplate : ∀ outer, place = .text outer → ¬StartsTemplate (b :: bytes)) :
    Demands place (b :: bytes) ↔ Demands place bytes := by
  obtain ⟨hquote, hfeed, hb⟩ := h
  cases place with
  | text outer =>
      obtain ⟨next, hnext⟩ := exists_bodyThen outer
      rw [hnext]
      exact BodyThen.plain_iff hquote hfeed hb (htemplate outer rfl)
  | template braces outer =>
      obtain ⟨next, hnext⟩ := exists_itemsThen braces outer
      rw [hnext]
      refine ItemsThen.other_iff ?_
      simp only [List.mem_cons, List.not_mem_nil, or_false, not_or]
      exact ⟨hb.1, hb.2, hquote, hfeed⟩

/-! ## Steps of the scan -/

/-- A word of bytes takes a place to the next one where the text behind it begins as `behind` does:
no proper beginning of the word closes the place. -/
structure Steps (place : StringPlace) (word : List UInt8) (next : StringPlace)
    (behind : List UInt8) : Prop where
  iff : ∀ part, part <+: behind → (Demands place (word ++ part) ↔ Demands next part)
  short : ∀ part, part <+: word → part ≠ word → ¬Demands place part

theorem Steps.of_byte
    (h : ∀ part, part <+: behind → (Demands place (b :: part) ↔ Demands next part)) :
    Steps place [b] next behind := by
  refine ⟨h, fun part hpart hne => ?_⟩
  obtain rfl : part = [] := by
    rcases List.prefix_cons_iff.1 hpart with rfl | ⟨rest, rfl, hrest⟩
    · rfl
    · exact absurd (by rw [List.prefix_nil.1 hrest]) hne
  exact not_demands_nil place

theorem Steps.of_high (hword : ∀ b ∈ word, 128 ≤ b.toNat) : Steps place word place behind := by
  have hcons : ∀ b ∈ word, ∀ rest, Demands place (b :: rest) ↔ Demands place rest := by
    intro b hb rest
    have hne : ∀ d : UInt8, d.toNat < 128 → b ≠ d := fun d hd heq =>
      absurd (hword b hb) (Nat.not_le.2 (heq ▸ hd))
    refine demands_cons ⟨hne _ (by decide), hne _ (by decide), ?_⟩ fun outer hplace => ?_
    · cases place with
      | text outer => exact hne _ (by decide)
      | template braces outer => exact ⟨hne _ (by decide), hne _ (by decide)⟩
    · rintro ⟨rest, hrest⟩
      exact hne _ (by decide) (List.cons.inj hrest).1
  have happend : ∀ {front : List UInt8} (rest : List UInt8), (∀ b ∈ front, b ∈ word) →
      (Demands place (front ++ rest) ↔ Demands place rest) := by
    intro front rest hfront
    induction front with
    | nil => rfl
    | cons b front ih =>
        obtain ⟨hb, hmore⟩ := List.forall_mem_cons.1 hfront
        exact (hcons b hb _).trans (ih hmore)
  refine ⟨fun part _ => happend part fun _ hb => hb, fun part hpart _ hcloses => ?_⟩
  rw [← List.append_nil part, happend [] fun _ hb => hpart.subset hb] at hcloses
  exact not_demands_nil place hcloses

theorem Steps.quote_text (braces : Nat) (outer : List Nat) :
    Steps (.text (braces :: outer)) [quote] (.template braces outer) behind := by
  refine .of_byte fun part _ => ?_
  rw [Demands]
  exact BodyThen.quote_iff

theorem Steps.quote_template (braces : Nat) (outer : List Nat) :
    Steps (.template braces outer) [quote] (.text (braces :: outer)) behind := by
  refine .of_byte fun part _ => ?_
  obtain ⟨next, hnext⟩ := exists_itemsThen braces outer
  rw [Demands, hnext]
  exact ItemsThen.quote_iff

theorem Steps.openBrace (braces : Nat) (outer : List Nat) :
    Steps (.template braces outer) [openBrace] (.template (braces + 1) outer) behind := by
  refine .of_byte fun part _ => ?_
  obtain ⟨next, hnext⟩ := exists_itemsThen braces outer
  rw [Demands, hnext]
  exact ItemsThen.openBrace_iff

theorem Steps.closeBrace_zero (outer : List Nat) :
    Steps (.template 0 outer) [closeBrace] (.text outer) behind := by
  refine .of_byte fun part _ => ?_
  rw [Demands]
  exact ItemsThen.closeBrace_iff

theorem Steps.closeBrace_succ (braces : Nat) (outer : List Nat) :
    Steps (.template (braces + 1) outer) [closeBrace] (.template braces outer) behind := by
  refine .of_byte fun part _ => ?_
  rw [Demands]
  exact ItemsThen.closeBrace_iff

theorem Steps.template (outer : List Nat) :
    Steps (.text outer) [dollar, StringByte.openBrace] (.template 0 outer) behind := by
  obtain ⟨next, hnext⟩ := exists_bodyThen outer
  refine ⟨fun part _ => ?_, fun part hpart hne => ?_⟩
  · rw [Demands, hnext]
    exact BodyThen.template_iff
  · rcases List.prefix_cons_iff.1 hpart with rfl | ⟨rest, rfl, hrest⟩
    · exact not_demands_nil _
    · rcases List.prefix_cons_iff.1 hrest with rfl | ⟨more, rfl, hmore⟩
      · rw [hnext, BodyThen.plain_iff (by decide) (by decide) (by decide) not_startsTemplate]
        exact BodyThen.not_nil
      · exact absurd (by rw [List.prefix_nil.1 hmore]) hne

/-- An escape takes the whole character behind the backslash, though it names one byte only. -/
theorem Steps.escape (outer : List Nat) {c : Char} (hc : c ≠ '\n') :
    Steps (.text outer) (backslash :: String.utf8EncodeChar c) (.text outer) behind := by
  obtain ⟨next, hnext⟩ := exists_bodyThen outer
  obtain ⟨b, high, hencode, hb, hhigh⟩ : ∃ b high, String.utf8EncodeChar c = b :: high ∧
      b ≠ lineFeed ∧ ∀ b ∈ high, 128 ≤ b.toNat := by
    rcases Nat.lt_or_ge c.toNat 128 with hascii | hascii
    · refine ⟨c.toUInt8, [], Text.utf8EncodeChar_ascii hascii, fun heq => hc ?_, by simp⟩
      exact Text.toUInt8_inj hascii (by decide) heq
    · have hbytes : ∀ b ∈ String.utf8EncodeChar c, 128 ≤ b.toNat := fun _ =>
        Text.le_of_mem_utf8EncodeChar hascii
      obtain ⟨b, high, hencode⟩ :=
        List.exists_cons_of_ne_nil (String.utf8EncodeChar_ne_nil (c := c))
      rw [hencode] at hbytes
      refine ⟨b, high, hencode, ?_, fun b hb => hbytes b (List.mem_cons_of_mem _ hb)⟩
      rintro rfl
      exact absurd (hbytes _ List.mem_cons_self) (by decide)
  have hrest : ∀ rest,
      Demands (.text outer) (backslash :: b :: rest) ↔ Demands (.text outer) rest := by
    intro rest
    rw [hnext, BodyThen.escape_iff]
    exact and_iff_right hb
  have hsteps : Steps (.text outer) high (.text outer) behind := .of_high hhigh
  rw [hencode]
  refine ⟨fun part hpart => (hrest _).trans (hsteps.iff part hpart), fun part hpart hne => ?_⟩
  rcases List.prefix_cons_iff.1 hpart with rfl | ⟨escaped, rfl, hescaped⟩
  · exact not_demands_nil _
  · rcases List.prefix_cons_iff.1 hescaped with rfl | ⟨more, rfl, hmore⟩
    · exact hnext ▸ BodyThen.not_backslash
    · rw [hrest]
      exact hsteps.short more hmore fun heq => hne (by rw [heq])

theorem Steps.plain {c : Char} {cs : List Char} (hquote : c ≠ '"') (hfeed : c ≠ '\n')
    (htext : ∀ outer, place = .text outer →
      (c = '\\' → cs = []) ∧ (c = '$' → ∀ rest, cs ≠ '\x7b' :: rest))
    (htemplate : ∀ braces outer, place = .template braces outer → c ≠ '\x7b' ∧ c ≠ '\x7d') :
    Steps place (String.utf8EncodeChar c) place (Text.bytes cs) := by
  rcases Nat.lt_or_ge c.toNat 128 with hascii | hascii
  · have hne : ∀ {d : Char}, d.toNat < 128 → c ≠ d → c.toUInt8 ≠ d.toUInt8 := fun hd hcd heq =>
      hcd (Text.toUInt8_inj hascii hd heq)
    rw [Text.utf8EncodeChar_ascii hascii]
    refine .of_byte fun part hpart => ?_
    cases place with
    | template braces outer =>
        obtain ⟨hopen, hclose⟩ := htemplate braces outer rfl
        exact demands_cons ⟨hne (by decide) hquote, hne (by decide) hfeed,
          hne (by decide) hopen, hne (by decide) hclose⟩ nofun
    | text outer =>
        obtain ⟨hescape, hdollar⟩ := htext outer rfl
        by_cases hc : c = '\\'
        · -- a backslash at the end of the text is never closed
          obtain ⟨next, hnext⟩ := exists_bodyThen outer
          obtain rfl := hescape hc
          obtain rfl := List.prefix_nil.1 hpart
          subst hc
          rw [hnext]
          exact iff_of_false BodyThen.not_backslash BodyThen.not_nil
        · refine demands_cons ⟨hne (by decide) hquote, hne (by decide) hfeed,
            hne (by decide) hc⟩ fun _ _ => ?_
          rintro ⟨rest, hrest⟩
          obtain ⟨hc, rfl⟩ := List.cons.inj hrest
          obtain ⟨more, hmore⟩ := hpart
          cases cs with
          | nil => cases hmore
          | cons d ds =>
              obtain rfl := Text.eq_of_bytes_cons (by decide) hmore.symm
              exact hdollar (Text.toUInt8_inj hascii (by decide) hc) ds rfl
  · exact .of_high fun b hb => Text.le_of_mem_utf8EncodeChar hascii hb

/-! ## What the scan finds -/

def line (cs : List Char) : List Char := cs.takeWhile (· ≠ '\n')

/-- What a scan has found from a place on: the only beginning of the text that closes the place, or
the line if no beginning does. -/
def Finds (place : StringPlace) (cs : List Char) (read : Nat) : Except Nat Nat → Prop
  | .ok n => ∃ front, front <+: line cs ∧ n = read + front.length ∧
      ∀ part, part <+: Text.bytes cs → (Demands place part ↔ part = Text.bytes front)
  | .error n => n = read + (line cs).length ∧ ∀ part, part <+: Text.bytes cs → ¬Demands place part

theorem line_append {word : List Char} (h : '\n' ∉ word) (cs : List Char) :
    line (word ++ cs) = word ++ line cs := by
  refine List.takeWhile_append_of_pos fun c hc => decide_eq_true ?_
  rintro rfl
  exact h hc

theorem Finds.of_steps (word : List Char) {cs : List Char} {read : Nat} {result : Except Nat Nat}
    (hword : '\n' ∉ word) (hsteps : Steps place (Text.bytes word) next (Text.bytes cs))
    (h : Finds next cs (read + word.length) result) : Finds place (word ++ cs) read result := by
  -- what closes the place takes the whole word
  have hlong : ∀ part, part <+: Text.bytes (word ++ cs) → Demands place part →
      ∃ rest, part = Text.bytes word ++ rest ∧ rest <+: Text.bytes cs ∧ Demands next rest := by
    intro part hpart hcloses
    rw [Text.bytes_append] at hpart
    have hprefix : Text.bytes word <+: part := by
      rcases List.prefix_or_prefix_of_prefix hpart (List.prefix_append _ _) with hshort | hlong
      · by_cases heq : part = Text.bytes word
        · exact heq ▸ List.prefix_rfl
        · exact absurd hcloses (hsteps.short part hshort heq)
      · exact hlong
    obtain ⟨rest, rfl⟩ := hprefix
    have hrest := (List.prefix_append_right_inj _).1 hpart
    exact ⟨rest, rfl, hrest, (hsteps.iff rest hrest).1 hcloses⟩
  cases result with
  | ok n =>
      obtain ⟨front, hfront, rfl, hclosed⟩ := h
      refine ⟨word ++ front, ?_, by rw [List.length_append, Nat.add_assoc],
        fun part hpart => ⟨?_, ?_⟩⟩
      · rw [line_append hword]
        exact (List.prefix_append_right_inj _).2 hfront
      · intro hcloses
        obtain ⟨rest, rfl, hrest, hnext⟩ := hlong part hpart hcloses
        rw [(hclosed rest hrest).1 hnext, Text.bytes_append]
      · rintro rfl
        simp only [Text.bytes_append] at hpart ⊢
        have hrest := (List.prefix_append_right_inj _).1 hpart
        exact (hsteps.iff _ hrest).2 ((hclosed _ hrest).2 rfl)
  | error n =>
      obtain ⟨rfl, hopen⟩ := h
      refine ⟨by rw [line_append hword, List.length_append, Nat.add_assoc],
        fun part hpart hcloses => ?_⟩
      obtain ⟨rest, rfl, hrest, hnext⟩ := hlong part hpart hcloses
      exact hopen rest hrest hnext

theorem Finds.closing_quote (cs : List Char) (read : Nat) :
    Finds (.text []) ('"' :: cs) read (.ok (read + 1)) := by
  refine ⟨['"'], ?_, rfl, fun part hpart => ?_⟩
  · rw [show '"' :: cs = ['"'] ++ cs from rfl, line_append (by decide)]
    exact List.prefix_append _ _
  · rw [demands_body]
    rcases List.prefix_cons_iff.1 hpart with rfl | ⟨rest, rfl, -⟩
    · exact iff_of_false StringBody.not_nil nofun
    · refine StringBody.quote_iff.trans ⟨?_, fun heq => (List.cons.inj heq).2⟩
      rintro rfl
      rfl

theorem Finds.line_feed (place : StringPlace) (cs : List Char) (read : Nat) :
    Finds place ('\n' :: cs) read (.error read) := by
  refine ⟨rfl, fun part hpart => ?_⟩
  rcases List.prefix_cons_iff.1 hpart with rfl | ⟨rest, rfl, -⟩
  · exact not_demands_nil place
  · exact not_demands_lineFeed place

theorem Finds.escaped_line_feed (outer : List Nat) (cs : List Char) (read : Nat) :
    Finds (.text outer) ('\\' :: '\n' :: cs) read (.error (read + 1)) := by
  obtain ⟨next, hnext⟩ := exists_bodyThen outer
  refine ⟨rfl, fun part hpart => ?_⟩
  rcases List.prefix_cons_iff.1 hpart with rfl | ⟨rest, rfl, hrest⟩
  · exact not_demands_nil _
  · rw [hnext]
    rcases List.prefix_cons_iff.1 hrest with rfl | ⟨rest, rfl, -⟩
    · exact BodyThen.not_backslash
    · exact fun h => (BodyThen.escape_iff.1 h).1 rfl

theorem Finds.nil (place : StringPlace) (read : Nat) : Finds place [] read (.error read) := by
  refine ⟨rfl, fun part hpart => ?_⟩
  rw [List.prefix_nil.1 hpart]
  exact not_demands_nil place

/-- The scan finds what its place demands. -/
theorem finds_stringEnd (place : StringPlace) (cs : List Char) (read : Nat) :
    Finds place cs read (stringEnd place cs read) := by
  fun_induction stringEnd place cs read with
  | case1 cs read => exact .closing_quote cs read
  | case2 braces outer cs read ih =>
      exact .of_steps ['"'] (by decide) (.quote_text braces outer) ih
  | case3 outer cs read ih =>
      exact .of_steps ['$', '\x7b'] (by decide) (.template outer) ih
  | case4 outer cs read => exact .escaped_line_feed outer cs read
  | case5 outer c cs read hfeed ih =>
      refine .of_steps ['\\', c] ?_ ?_ ih
      · simp [Ne.symm hfeed]
      · simpa [Text.utf8EncodeChar_ascii] using .escape outer hfeed
  | case6 braces outer cs read ih =>
      exact .of_steps ['\x7b'] (by decide) (.openBrace braces outer) ih
  | case7 outer cs read ih =>
      exact .of_steps ['\x7d'] (by decide) (.closeBrace_zero outer) ih
  | case8 outer braces cs read ih =>
      exact .of_steps ['\x7d'] (by decide) (.closeBrace_succ outer braces) ih
  | case9 braces outer cs read ih =>
      exact .of_steps ['"'] (by decide) (.quote_template braces outer) ih
  | case10 place cs read => exact .line_feed place cs read
  -- no character with a meaning stands here, so the scan stays in its place
  | case11 place c cs read hquote hquote' hdollar hescape hopen hclose hclose' hquote'' hfeed ih =>
      refine .of_steps [c] (by simp [Ne.symm hfeed]) ?_ ih
      rw [Text.bytes_cons, Text.bytes_nil, List.append_nil]
      refine .plain ?_ hfeed ?_ ?_
      · rintro rfl
        cases place with
        | template braces outer => exact hquote'' braces outer rfl rfl
        | text outer =>
            cases outer with
            | nil => exact hquote rfl rfl
            | cons braces outer => exact hquote' braces outer rfl rfl
      · refine fun outer hplace => ⟨fun hc => ?_, fun hc rest => hdollar outer rest hplace hc⟩
        cases cs with
        | nil => rfl
        | cons d ds => exact (hescape outer d ds hplace hc rfl).elim
      · refine fun braces outer hplace => ⟨hopen braces outer hplace, fun hc => ?_⟩
        cases braces with
        | zero => exact hclose outer hplace hc
        | succ braces => exact hclose' _ _ hplace hc
  | case12 place read => exact .nil place read

end Form
end AnnotationScan
