import AnnotationScan.Proofs.Token.Comments
import AnnotationScan.Proofs.Token.Readers
import AnnotationScan.Proofs.Token.StringBodies

/-!
# Block comments and their grammar

The rest of a block comment, said of its bytes: further comments and other bytes up to the closing.
A loop that counts the open comments byte by byte goes through such a rest and never counts below
zero, and the search among the characters ends where it does.  Where no beginning of the text is the
rest of a comment, the comment takes the whole text and is a fault.
-/

namespace AnnotationScan

namespace CommentByte

-- as numbers, so that they may stand in patterns
@[match_pattern] abbrev slash : UInt8 := 47
@[match_pattern] abbrev asterisk : UInt8 := 42

end CommentByte

open CommentByte

/-- The bytes of the rest of a block comment behind its opening, closing included. -/
inductive CommentBytes : List UInt8 → Prop
  | close : CommentBytes [asterisk, slash]
  | nested {inner rest : List UInt8} (hinner : CommentBytes inner) (hrest : CommentBytes rest) :
      CommentBytes (slash :: asterisk :: (inner ++ rest))
  | byte {b : UInt8} {rest : List UInt8} (hopening : ¬[slash, asterisk] <+: b :: rest)
      (hclosing : ¬[asterisk, slash] <+: b :: rest) (hrest : CommentBytes rest) :
      CommentBytes (b :: rest)

/-- How a count of the open comments ends: behind a closing, at the end of the text, or at a closing
that would take the count below zero. -/
inductive CommentCount where
  | closed (length : Nat)
  | unclosed
  | underflow
deriving DecidableEq, Repr

/-- Reads bytes from left to right; `depth` counts the comments that are open. -/
def countComments : (depth : Nat) → List UInt8 → (read : Nat) → CommentCount
  | depth, slash :: asterisk :: bytes, read => countComments (depth + 1) bytes (read + 2)
  | 0, asterisk :: slash :: _, _ => .underflow
  | 1, asterisk :: slash :: _, read => .closed (read + 2)
  | depth + 2, asterisk :: slash :: bytes, read => countComments (depth + 1) bytes (read + 2)
  | depth, _ :: bytes, read => countComments depth bytes (read + 1)
  | _, [], _ => .unclosed

/-! ## Bytes that the count passes over -/

/-- Bytes at none of which an opening or a closing starts, in front of the bytes `behind`. -/
inductive Passes (behind : List UInt8) : List UInt8 → Prop
  | nil : Passes behind []
  | cons {b : UInt8} {word : List UInt8} (hopening : ¬[slash, asterisk] <+: b :: (word ++ behind))
      (hclosing : ¬[asterisk, slash] <+: b :: (word ++ behind)) (h : Passes behind word) :
      Passes behind (b :: word)

theorem Text.isPrefix_of_bytes {word cs : List Char} (hword : ∀ c ∈ word, c.toNat < 128)
    (h : bytes word <+: bytes cs) : word <+: cs := by
  induction word generalizing cs with
  | nil => exact List.nil_prefix
  | cons c word ih =>
      obtain ⟨hc, hrest⟩ := List.forall_mem_cons.1 hword
      rw [bytes_cons, utf8EncodeChar_ascii hc, List.singleton_append] at h
      cases cs with
      | nil => cases List.prefix_nil.1 h
      | cons d cs =>
          obtain ⟨more, hmore⟩ := h
          obtain rfl := eq_of_bytes_cons hc hmore.symm
          rw [bytes_cons, utf8EncodeChar_ascii hc, List.singleton_append] at hmore
          exact List.cons_prefix_cons.2 ⟨rfl, ih hrest ⟨more, (List.cons.inj hmore).2⟩⟩

namespace Passes

variable {behind word : List UInt8}

theorem countComments_append (h : Passes behind word) (depth read : Nat) :
    countComments depth (word ++ behind) read =
      countComments depth behind (read + word.length) := by
  induction h generalizing read with
  | nil => rfl
  | @cons b word hopening hclosing _ ih =>
      rw [List.cons_append, countComments, ih, List.length_cons, Nat.add_comm word.length,
        Nat.add_assoc]
      · rintro rest rfl hrest
        exact hopening ⟨rest, by rw [hrest]; rfl⟩
      · rintro rest - rfl hrest
        exact hclosing ⟨rest, by rw [hrest]; rfl⟩
      · rintro rest - rfl hrest
        exact hclosing ⟨rest, by rw [hrest]; rfl⟩
      · rintro depth rest - rfl hrest
        exact hclosing ⟨rest, by rw [hrest]; rfl⟩

theorem commentBytes_append (h : Passes behind word) (hbehind : CommentBytes behind) :
    CommentBytes (word ++ behind) := by
  induction h with
  | nil => exact hbehind
  | cons hopening hclosing _ ih => exact .byte hopening hclosing ih

theorem of_high (h : ∀ b ∈ word, 128 ≤ b.toNat) : Passes behind word := by
  induction word with
  | nil => exact .nil
  | cons b word ih =>
      obtain ⟨hb, hword⟩ := List.forall_mem_cons.1 h
      refine .cons ?_ ?_ (ih hword)
      · rintro ⟨rest, hrest⟩
        obtain rfl := (List.cons.inj hrest).1
        exact absurd hb (by decide)
      · rintro ⟨rest, hrest⟩
        obtain rfl := (List.cons.inj hrest).1
        exact absurd hb (by decide)

/-- The bytes of a character start an opening or a closing only where the character does. -/
theorem of_char {c : Char} {cs : List Char} (hopening : ¬['/', '*'] <+: c :: cs)
    (hclosing : ¬['*', '/'] <+: c :: cs) :
    Passes (Text.bytes cs) (String.utf8EncodeChar c) := by
  rcases Nat.lt_or_ge c.toNat 128 with hascii | hascii
  · have hbytes : Text.bytes (c :: cs) = c.toUInt8 :: Text.bytes cs := by
      rw [Text.bytes_cons, Text.utf8EncodeChar_ascii hascii, List.singleton_append]
    rw [Text.utf8EncodeChar_ascii hascii]
    refine .cons ?_ ?_ .nil
    · exact fun h => hopening (Text.isPrefix_of_bytes (by simp) (hbytes ▸ h))
    · exact fun h => hclosing (Text.isPrefix_of_bytes (by simp) (hbytes ▸ h))
  · exact .of_high fun b => Text.le_of_mem_utf8EncodeChar hascii

end Passes

/-! ## The count and the grammar -/

namespace CommentBytes

variable {part text : List UInt8}

theorem ne_nil (h : CommentBytes part) : part ≠ [] := by
  cases h <;> simp

theorem countComments_append (h : CommentBytes part) (depth : Nat) (more : List UInt8)
    (read : Nat) :
    countComments (depth + 2) (part ++ more) read =
        countComments (depth + 1) more (read + part.length) ∧
      countComments 1 (part ++ more) read = .closed (read + part.length) := by
  induction h generalizing depth more read with
  | close => exact ⟨rfl, rfl⟩
  | @nested inner rest _ _ ihinner ihrest =>
      have hlength : read + (slash :: asterisk :: (inner ++ rest)).length =
          read + 2 + inner.length + rest.length := by
        simp only [List.length_cons, List.length_append]
        omega
      have hopening : ∀ depth,
          countComments depth (slash :: asterisk :: (inner ++ rest) ++ more) read =
            countComments (depth + 1) (inner ++ (rest ++ more)) (read + 2) := fun depth => by
        rw [← List.append_assoc]
        rfl
      rw [hopening, hopening, (ihinner (depth + 1) _ _).1, (ihinner 0 _ _).1, hlength]
      exact ihrest depth more _
  | @byte b rest hopening hclosing hrest ih =>
      rw [← pair_isPrefix_append hrest.ne_nil more] at hopening hclosing
      have hpasses : Passes (rest ++ more) [b] := .cons hopening hclosing .nil
      have hlength : read + (b :: rest).length = read + 1 + rest.length := by
        rw [List.length_cons]
        omega
      rw [show b :: rest ++ more = [b] ++ (rest ++ more) from rfl, hpasses.countComments_append,
        hpasses.countComments_append, hlength]
      exact ih depth more _

/-- The count closes where a beginning of the text is the rest of a comment. -/
theorem countComments_take {n : Nat} (hn : n ≤ text.length) (h : CommentBytes (text.take n)) :
    countComments 1 text 0 = .closed n := by
  have hcount := (h.countComments_append 0 (text.drop n) 0).2
  rwa [List.take_append_drop, List.length_take, Nat.min_eq_left hn, Nat.zero_add] at hcount

end CommentBytes

/-! ## The search among the characters -/

theorem CommentRest.commentBytes {text : List Char} (h : CommentRest text) :
    CommentBytes (Text.bytes text) := by
  induction h with
  | close => exact .close
  | @nested inner rest _ _ ihinner ihrest =>
      have hbytes : Text.bytes ('/' :: '*' :: (inner ++ rest)) =
          slash :: asterisk :: (Text.bytes inner ++ Text.bytes rest) := by
        rw [Text.bytes_cons, Text.bytes_cons, Text.bytes_append]
        rfl
      exact hbytes ▸ .nested ihinner ihrest
  | char hopening hclosing _ ih =>
      exact (Passes.of_char hopening hclosing).commentBytes_append ih

namespace Form

theorem countComments_of_closing? {inner : Nat} {cs : List Char} {read : Nat}
    (h : closing? inner cs read = none) (start : Nat) :
    countComments (inner + 1) (Text.bytes cs) start = .unclosed := by
  fun_induction closing? inner cs read generalizing start with
  | case1 inner cs read ih => exact ih h _
  | case2 cs read => cases h
  | case3 cs read inner ih => exact ih h _
  | case4 inner c cs read hopening hclosing hclosing' ih =>
      have hpasses : Passes (Text.bytes cs) (String.utf8EncodeChar c) := by
        refine .of_char (not_pair_isPrefix hopening) (not_pair_isPrefix fun rest => ?_)
        cases inner with
        | zero => exact hclosing rest rfl
        | succ inner => exact hclosing' inner rest rfl
      rw [Text.bytes_cons, hpasses.countComments_append]
      exact ih h _
  | case5 => rfl

end Form

namespace Piece

/-- The class of block comments takes `n` bytes of the text behind an opening, which end with a
character. -/
def TakesComment (cs : List Char) (n : Nat) : Prop :=
  ∃ front, front <+: cs ∧ n = Text.byteLength front ∧
    blockComment ('/' :: '*' :: cs) = some (.blockComment, 2 + front.length)

/-- Behind an opening either the rest of a comment is found, or there is none and all is taken. -/
theorem blockComment_cases (cs : List Char) :
    (∃ front, front <+: cs ∧ CommentBytes (Text.bytes front) ∧
      blockComment ('/' :: '*' :: cs) = some (.blockComment, 2 + front.length)) ∨
    countComments 1 (Text.bytes cs) 0 = .unclosed ∧
      blockComment ('/' :: '*' :: cs) = some (.fault .unterminatedComment, 2 + cs.length) := by
  cases hbody : Form.blockCommentBody cs with
  | none => exact .inr ⟨Form.countComments_of_closing? hbody 0, by simp only [blockComment, hbody]⟩
  | some n =>
      obtain ⟨front, rest, rfl, rfl, hfront⟩ := Form.closes_of_closing? hbody
      refine .inl ⟨front, List.prefix_append _ _, CommentRest.commentBytes hfront, ?_⟩
      simp only [blockComment, hbody, Nat.zero_add]

theorem longest_comment (cs : List Char) :
    blockComment ('/' :: '*' :: cs) = some (longest ('/' :: '*' :: cs)) := by
  have hmem : blockComment ∈ readers := by simp [readers]
  obtain ⟨own, hown, htwo⟩ :
      ∃ own, blockComment ('/' :: '*' :: cs) = some own ∧ 2 ≤ own.2 := by
    rcases blockComment_cases cs with ⟨front, -, -, hown⟩ | ⟨-, hown⟩
    · exact ⟨_, hown, Nat.le_add_right 2 _⟩
    · exact ⟨_, hown, Nat.le_add_right 2 _⟩
  rcases longest_mem ('/' :: '*' :: cs) with ⟨reader, hreader, hreading⟩ | ⟨hnone, -⟩
  · obtain ⟨-, c, rest, hcs, hstarts⟩ := starts_of_mem hreader hreading
    obtain rfl := (List.cons.inj hcs).1
    rcases hstarts.of_slash with hplain | rfl | rfl
    · have hone := le_one_of_mem_plainReaders hplain (by decide) hreading
      have hle := le_longest hmem hown
      omega
    · cases hreading
    · exact hreading
  · cases (hnone _ hmem).symm.trans hown

/-- What is read behind an opening, in bytes: the one beginning of the text that is the rest of a
comment, or else the whole text as a fault.  The count comes to the same end, and never to an
underflow. -/
structure DerivesComment (cs : List Char) : Prop where
  takes_iff : ∀ n, TakesComment cs n ↔
    n ≤ (Text.bytes cs).length ∧ CommentBytes ((Text.bytes cs).take n)
  unique : ∀ n m, n ≤ (Text.bytes cs).length → m ≤ (Text.bytes cs).length →
    CommentBytes ((Text.bytes cs).take n) → CommentBytes ((Text.bytes cs).take m) → n = m
  fault : (∀ n ≤ (Text.bytes cs).length, ¬CommentBytes ((Text.bytes cs).take n)) →
    blockComment ('/' :: '*' :: cs) = some (.fault .unterminatedComment, 2 + cs.length)
  counted : ∀ n, countComments 1 (Text.bytes cs) 0 = .closed n ↔ TakesComment cs n
  no_underflow : countComments 1 (Text.bytes cs) 0 ≠ .underflow
  longest : blockComment ('/' :: '*' :: cs) = some (longest ('/' :: '*' :: cs))

theorem blockComment_derives (cs : List Char) : DerivesComment cs := by
  have hcount : ∀ n, n ≤ (Text.bytes cs).length ∧ CommentBytes ((Text.bytes cs).take n) →
      countComments 1 (Text.bytes cs) 0 = .closed n := fun n h =>
    CommentBytes.countComments_take h.1 h.2
  have hunique : ∀ n m, n ≤ (Text.bytes cs).length → m ≤ (Text.bytes cs).length →
      CommentBytes ((Text.bytes cs).take n) → CommentBytes ((Text.bytes cs).take m) → n = m :=
    fun n m hn hm hderives hderives' =>
      CommentCount.closed.inj ((hcount n ⟨hn, hderives⟩).symm.trans (hcount m ⟨hm, hderives'⟩))
  rcases blockComment_cases cs with ⟨front, hprefix, hfront, hreading⟩ | ⟨hopen, hreading⟩
  · have hderives : Text.byteLength front ≤ (Text.bytes cs).length ∧
        CommentBytes ((Text.bytes cs).take (Text.byteLength front)) := by
      refine ⟨?_, Text.take_bytes_length hprefix ▸ hfront⟩
      obtain ⟨rest, rfl⟩ := hprefix
      simp
    have hclosed := hcount _ hderives
    have htakes : TakesComment cs (Text.byteLength front) := ⟨front, hprefix, rfl, hreading⟩
    have honly : ∀ n, TakesComment cs n → n = Text.byteLength front := by
      rintro n ⟨front', hprefix', rfl, hreading'⟩
      have hlength := congrArg Prod.snd (Option.some.inj (hreading'.symm.trans hreading))
      rw [List.prefix_iff_eq_take.1 hprefix', Nat.add_left_cancel hlength,
        ← List.prefix_iff_eq_take.1 hprefix]
    refine ⟨fun n => ⟨fun hn => honly n hn ▸ hderives, fun hn => ?_⟩, hunique, fun hnone => ?_,
      fun n => ⟨fun hn => ?_, fun hn => honly n hn ▸ hclosed⟩, ?_, longest_comment cs⟩
    · exact CommentCount.closed.inj (hclosed.symm.trans (hcount n hn)) ▸ htakes
    · exact absurd hderives.2 (hnone _ hderives.1)
    · exact CommentCount.closed.inj (hclosed.symm.trans hn) ▸ htakes
    · rw [hclosed]
      exact nofun
  · have hnone : ∀ n, ¬TakesComment cs n := by
      rintro n ⟨front, -, -, hreading'⟩
      cases hreading.symm.trans hreading'
    refine ⟨fun n => ⟨fun hn => absurd hn (hnone n), fun hn => ?_⟩, hunique, fun _ => hreading,
      fun n => ⟨fun hn => ?_, fun hn => absurd hn (hnone n)⟩, ?_, longest_comment cs⟩
    · cases hopen.symm.trans (hcount n hn)
    · cases hopen.symm.trans hn
    · rw [hopen]
      exact nofun

/-- The star of an opening does not begin a closing, and the second of two stars may. -/
example : blockComment "/*/*/é**/*/*/".toList = some (.blockComment, 11) := by decide +kernel

end Piece
end AnnotationScan
