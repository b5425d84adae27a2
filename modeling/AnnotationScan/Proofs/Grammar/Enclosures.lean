import AnnotationScan.Proofs.Grammar.Decisions
import AnnotationScan.Proofs.Peg.Transfer

/-!
# Tokens between brackets and between commas

What stands in brackets is matched wherever the same tokens stand.  A rule that is no list looks for
a comma or a closing parenthesis in brackets only, so that in front of either it decides alike, if no
type arguments reach beyond it.
-/

namespace AnnotationScan

open Peg

namespace Bracket

def opening : Bracket → TokenKind
  | .paren => .leftParen
  | .bracket => .leftBracket
  | .brace => .leftBrace
  | .angle => .less

def closing : Bracket → TokenKind
  | .paren => .rightParen
  | .bracket => .rightBracket
  | .brace => .rightBrace
  | .angle => .greater

theorem read_opening {b : Bracket} (h : b ≠ .angle) (before : List Bracket) :
    read false before b.opening = some (b :: before) := by
  cases b with
  | angle => exact absurd rfl h
  | paren | bracket | brace => rfl

theorem read_closing (b : Bracket) : read (b = .angle) [] b.closing = none := by
  cases b <;> rfl

theorem opening_notMem (b : Bracket) :
    b.opening ∉ [TokenKind.comma, .rightParen, .endOfInput] := by
  cases b <;> decide

theorem closing_ne (b : Bracket) : b.closing ≠ .endOfInput := by
  cases b <;> decide

end Bracket

structure Peg.Lexeme.Looks {κ : Type} (a b : Lexeme κ) : Prop where
  kind : a.kind = b.kind
  isWord : a.isWord = b.isWord
  text : a.text = b.text
  newlineBefore : a.newlineBefore = b.newlineBefore

def Peg.Source.Shares {κ : Type} (source source' : Source κ) (start stop : Nat) : Prop :=
  ∀ i, start ≤ i → i < stop → (source.lexeme i).Looks (source'.lexeme i)

namespace Peg.Source.Shares

variable {κ : Type} {source source' : Source κ} {start stop i : Nat}

theorem symm (h : source.Shares source' start stop) : source'.Shares source start stop :=
  fun i hi hlt =>
    have hlooks := h i hi hlt
    ⟨hlooks.kind.symm, hlooks.isWord.symm, hlooks.text.symm, hlooks.newlineBefore.symm⟩

theorem alike (h : source.Shares source' start stop) (hi : start ≤ i) (hlt : i < stop)
    (hinside : i ≤ source'.last) (hnext : source.next i = source'.next i) (part : Rule κ)
    (count : Bool) : source.Alike source' part count i := by
  obtain ⟨hkind, hword, htext, hline⟩ := h i hi hlt
  exact ⟨hinside, hnext, hkind, hword, fun _ _ _ => by rw [htext], fun _ _ => hline⟩

end Peg.Source.Shares

namespace Grammar

def enclosures (trace : Bool) : List TokenRule :=
  [typeArguments trace, parenthesizedType, functionTypeParameters, valueArguments trace,
    annotationList trace, parenthesizedExpression, indexingSuffix, collectionLiteral trace,
    lambdaLiteral trace, parenthesizedUserTypeBody trace,
    inParens Nonterminal.directlyAssignableExpression.rule,
    inParens Nonterminal.assignableExpression.rule]

/-- A rule between two brackets, perhaps with a name. -/
inductive Encloses (trace : Bool) (b : Bracket) : TokenRule → Prop
  | between {content : TokenRule} (h : Nests (b = .angle) [] content []) :
      Encloses trace b (Rule.wrapped (.token b.opening) content (.token b.closing))
  | named {name : String} {part : TokenRule} (h : Encloses trace b part) :
      Encloses trace b (named trace name part)

variable {source source' : Source TokenKind} {trace m : Bool} {rule : TokenRule} {b : Bracket}
  {start stop i j : Nat}

theorem encloses_of_mem (h : rule ∈ enclosures trace) :
    ∃ b, Encloses trace b rule ∧ (b = .angle → rule = typeArguments trace) := by
  simp only [enclosures, List.mem_cons, List.not_mem_nil, or_false] at h
  rcases h with rfl | rfl | rfl | rfl | rfl | rfl | rfl | rfl | rfl | rfl | rfl | rfl
  · exact ⟨.angle, .named (.between (.commaList .typeProjection)), fun _ => rfl⟩
  · exact ⟨.paren, .between (.newlines .type), nofun⟩
  · refine ⟨.paren, .between (.newlines (.optional (.commaList (.orElse ?_ .type)))), nofun⟩
    exact .andThen .word (.andThen (.plain rfl) (.andThen .type .nothing))
  · exact ⟨.paren, .named (.between (.newlines (.optional (.commaList (.valueArgument rfl))))),
      nofun⟩
  · exact ⟨.bracket, .between (.newlines (.atLeastOnce .annotationUnescaped)), nofun⟩
  · exact ⟨.paren, .between (.newlines (.expression rfl)), nofun⟩
  · exact ⟨.bracket, .between (.newlines (.commaList (.expression rfl))), nofun⟩
  · exact ⟨.bracket, .named (.between (.newlines (.optional (.commaList (.expression rfl))))), nofun⟩
  · refine ⟨.brace, .named (.between (.newlines (.andThen (.optional ?_)
      (.andThen (.statements rfl) .nothing)))), nofun⟩
    exact .andThen (.optional (.commaList .lambdaParameter)) (.andThen (.plain rfl) .nothing)
  · exact ⟨.paren, .between (.newlines (.orElse .userType (.ref rfl (.inl rfl)))), nofun⟩
  · exact ⟨.paren, .between (.newlines (.ref rfl (.inr rfl))), nofun⟩
  · exact ⟨.paren, .between (.newlines (.ref rfl (.inr rfl))), nofun⟩

theorem isFatal_enclosures : ∀ trace, ∀ rule ∈ enclosures trace, rule.has Rule.isFatal = false := by
  decide

theorem matches_brackets {content : TokenRule} (hsource : source.Marked) (hi : i ≤ source.last) :
    Matches source (definitions trace)
        (Rule.wrapped (.token b.opening) content (.token b.closing)) m i j ↔
      (i < source.last ∧ (source.lexeme i).kind = b.opening) ∧
        ∃ k < source.last, Matches source (definitions trace) content m (i + 1) k ∧
          (source.lexeme k).kind = b.closing ∧ j = k + 1 := by
  have hopening := b.opening_notMem
  rw [matches_between]
  constructor
  · rintro ⟨hkind, k, hk, hclosing, rfl⟩
    have hlt : i < source.last := hsource.lt_last hi fun hend =>
      hopening (by rw [← hkind, hend]; decide)
    rw [Source.next_of_lt hlt] at hk
    have hlast : k < source.last := hsource.lt_last (hk.bounds hlt).2 fun hend =>
      b.closing_ne (hclosing.symm.trans hend)
    exact ⟨⟨hlt, hkind⟩, k, hlast, hk, hclosing, Source.next_of_lt hlast⟩
  · rintro ⟨⟨hlt, hkind⟩, k, hlast, hk, hclosing, rfl⟩
    rw [Source.next_of_lt hlt]
    exact ⟨hkind, k, hk, hclosing, (Source.next_of_lt hlast).symm⟩

namespace Encloses

theorem refersTo (h : Encloses trace b rule) :
    ∀ r, rule.RefersTo r → ∃ nonterminal : Nonterminal, nonterminal.index = r := by
  induction h with
  | between hcontent =>
      rintro r (hr | hr | hr | hr)
      · cases hr
      · exact hcontent.refersTo r hr
      · cases hr
      · cases hr
  | named _ ih =>
      unfold Grammar.named
      split
      · exact ih
      · exact ih

theorem matches_shared (h : Encloses trace b rule) (hsource : source.Marked)
    (hsource' : source'.Marked) (hshares : source.Shares source' start stop)
    (hlast : stop ≤ source.last) (hlast' : stop ≤ source'.last) (hstart : start ≤ i) (hj : j ≤ stop)
    (hi : i ≤ source.last) (hmatch : Matches source (definitions trace) rule m i j) :
    Matches source' (definitions trace) rule m i j := by
  induction h with
  | named _ ih => exact matches_named.2 (ih (matches_named.1 hmatch))
  | between hcontent =>
      obtain ⟨⟨hlt, hopening⟩, k, -, hk, hclosing, rfl⟩ := (matches_brackets hsource hi).1 hmatch
      have hik := (hk.bounds hlt).1
      rw [(hshares i hstart (by omega)).kind] at hopening
      have hstuck : Bracket.read (b = .angle) [] (source.lexeme k).kind = none :=
        hclosing ▸ b.read_closing
      rw [(hshares k (by omega) (by omega)).kind] at hclosing
      refine (matches_brackets hsource' (by omega)).2 ⟨⟨by omega, hopening⟩, k, by omega,
        hk.alike hlt fun part count place hv => ?_, hclosing, rfl⟩
      -- nothing is attempted behind the bracket at `k`
      obtain ⟨d, v, hd⟩ := hk
      have hnesting := hcontent.nesting hsource hd hlt k rfl
      obtain ⟨inner, hinner⟩ := hcontent.nesting_of_visits hsource hv hlt
      have hle := Source.nesting_le hnesting (by rwa [Nat.add_sub_cancel' hik]) hinner
      have hplace := (hv.bounds hlt).1
      refine hshares.alike (by omega) (by omega) (by omega) ?_ part count
      rw [Source.next_of_lt (by omega), Source.next_of_lt (by omega)]

end Encloses

/-- Tokens that close each bracket they open, in front of a comma or a closing parenthesis, and no
type arguments in them reach beyond that. -/
structure Segment (source : Source TokenKind) (trace : Bool) (start stop : Nat) : Prop where
  marked : source.Marked
  lt_last : stop < source.last
  nesting : source.nesting false [] start (stop - start) = some []
  ends : (source.lexeme stop).kind ∈ [TokenKind.comma, .rightParen]
  typeArguments : ∀ {i j}, start ≤ i → i ≤ stop →
    Matches source (definitions trace) (typeArguments trace) false i j → j ≤ stop

namespace Segment

variable {d : Nat} {o : Outcome}

theorem le_of_encloses (h : Segment source trace start stop) (henclosed : Encloses trace b rule)
    (hb : b ≠ .angle) (hstart : start ≤ i) (hi : i ≤ stop)
    (hmatch : Matches source (definitions trace) rule m i j) : j ≤ stop := by
  have hlast := h.lt_last
  induction henclosed with
  | named _ ih => exact ih (matches_named.1 hmatch)
  | between hcontent =>
      obtain ⟨⟨hlt, hopening⟩, k, -, hk, hclosing, rfl⟩ :=
        (matches_brackets h.marked (by omega)).1 hmatch
      have hne : i ≠ stop := by
        rintro rfl
        have hends := h.ends
        rw [hopening] at hends
        exact b.opening_notMem (List.mem_append_left [TokenKind.endOfInput] hends)
      have hik := (hk.bounds hlt).1
      -- the bracket is open in front of what is left of the segment
      obtain ⟨outer, -, houter⟩ := Source.exists_between hstart hi h.nesting
      obtain ⟨inner, hinner, hrest⟩ :=
        Source.exists_between (show i ≤ i + 1 by omega) (Nat.lt_of_le_of_ne hi hne) houter
      rw [Nat.add_sub_cancel_left, Source.nesting_one
        (by rw [hopening]; exact Bracket.read_opening hb outer)] at hinner
      obtain rfl := Option.some.inj hinner
      rcases Source.nesting_closed hrest with ⟨n, hn, hinner, hstuck, -⟩ | ⟨inner, -, hfalse⟩
      · obtain ⟨d, v, hd⟩ := hk
        have hle := Source.nesting_le hinner hstuck (hcontent.nesting h.marked hd hlt k rfl)
        omega
      · simp at hfalse

end Segment
end Grammar
end AnnotationScan
