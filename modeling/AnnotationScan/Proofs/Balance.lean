import AnnotationScan.Proofs.Significance

/-!
# Balanced brackets

The tokens of an annotation form a word that is balanced in its parentheses, brackets and braces.
The grammar has no rule for a bracket on its own, and the brackets left open behind a token are those
that an unfinished part of such a word is still to close.
-/

namespace AnnotationScan

open Peg

namespace TokenKind

/-- Words whose parentheses, brackets and braces are well nested. -/
inductive Balanced : List TokenKind → Prop
  | nil : Balanced []
  | plain {kind : TokenKind} {rest : List TokenKind} (hopened : kind.opened? false = none)
      (hclosed : kind.closed? false = none) (hrest : Balanced rest) : Balanced (kind :: rest)
  | pair {opening closing : TokenKind} {b : Bracket} {inner rest : List TokenKind}
      (hopened : opening.opened? false = some b) (hclosed : closing.closed? false = some b)
      (hinner : Balanced inner) (hrest : Balanced rest) :
      Balanced (opening :: (inner ++ closing :: rest))

/-- Words that close only brackets they have opened, with the brackets that stay open, the innermost
one first: balanced words with opening brackets in between. -/
inductive LeavesOpen : List TokenKind → List Bracket → Prop
  | balanced {word : List TokenKind} (h : Balanced word) : LeavesOpen word []
  | opened {front word : List TokenKind} {opening : TokenKind} {b : Bracket} {before : List Bracket}
      (hfront : LeavesOpen front before) (hopened : opening.opened? false = some b)
      (hword : Balanced word) : LeavesOpen (front ++ opening :: word) (b :: before)

theorem Balanced.append {front rest : List TokenKind} (h : Balanced front) (hrest : Balanced rest) :
    Balanced (front ++ rest) := by
  induction h with
  | nil => exact hrest
  | plain hopened hclosed _ ih => exact .plain hopened hclosed ih
  | @pair opening closing b inner outer hopened hclosed hinner _ _ ih =>
      have hpair : Balanced (opening :: (inner ++ closing :: (outer ++ rest))) :=
        .pair hopened hclosed hinner ih
      simpa using hpair

namespace LeavesOpen

variable {word : List TokenKind} {before : List Bracket}

theorem append (h : LeavesOpen word before) {rest : List TokenKind} (hrest : Balanced rest) :
    LeavesOpen (word ++ rest) before := by
  cases h with
  | balanced h => exact .balanced (h.append hrest)
  | opened hfront hopened hword =>
      rw [List.append_assoc, List.cons_append]
      exact .opened hfront hopened (hword.append hrest)

theorem concat (h : LeavesOpen word before) {kind : TokenKind} {after : List Bracket}
    (hbehind : Bracket.behind? before kind = some after) : LeavesOpen (word ++ [kind]) after := by
  unfold Bracket.behind? at hbehind
  split at hbehind
  case h_1 b hopened =>
    obtain rfl := Option.some.inj hbehind
    exact .opened h hopened .nil
  case h_2 b _ hclosed =>
    rw [Option.ite_none_right_eq_some] at hbehind
    obtain ⟨hhead, hafter⟩ := hbehind
    obtain rfl := Option.some.inj hafter
    cases h with
    | balanced _ => cases hhead
    | @opened front inner opening c before hfront hopened hinner =>
        obtain rfl := Option.some.inj hhead
        -- the last bracket that was open and what stands behind it are a pair now
        have hpair : Balanced (opening :: (inner ++ [kind])) := .pair hopened hclosed hinner .nil
        simpa using hfront.append hpair
  case h_3 hopened hclosed =>
    obtain rfl := Option.some.inj hbehind
    exact h.append (.plain hopened hclosed .nil)

theorem nil_iff : LeavesOpen word [] ↔ Balanced word := by
  constructor
  · rintro (h | _)
    exact h
  · exact .balanced

end LeavesOpen
end TokenKind

namespace TokenList

variable {list : TokenList} {start : Nat}

def kinds (list : TokenList) (start stop : Nat) : List TokenKind :=
  ((list.tokens.toList.drop start).take (stop - start)).map (·.kind)

theorem kinds_succ {n : Nat} {token : Token} (h : list.get? (start + n) = some token) :
    list.kinds start (start + n + 1) = list.kinds start (start + n) ++ [token.kind] := by
  have htoken : (list.tokens.toList.drop start)[n]? = some token := by
    rw [List.getElem?_drop, Array.getElem?_toList]
    exact h
  rw [kinds, kinds, Nat.add_assoc, Nat.add_sub_cancel_left, Nat.add_sub_cancel_left,
    List.take_add_one, htoken]
  simp

theorem length_kinds {stop : Nat} (h : stop ≤ list.size) :
    (list.kinds start stop).length = stop - start := by
  have hsize : stop ≤ list.tokens.toList.length := h
  rw [kinds, List.length_map, List.length_take, List.length_drop]
  omega

theorem take_kinds {stop : Nat} (n : Nat) :
    (list.kinds start stop).take n = list.kinds start (start + min n (stop - start)) := by
  rw [kinds, kinds, ← List.map_take, List.take_take, Nat.add_sub_cancel_left]

theorem leavesOpen_of_leftOpen? {n : Nat} {left : List Bracket}
    (h : list.leftOpen? start n = some left) :
    TokenKind.LeavesOpen (list.kinds start (start + n)) left := by
  induction n generalizing left with
  | zero =>
      obtain rfl := Option.some.inj h
      rw [kinds, Nat.add_zero, Nat.sub_self]
      exact .balanced .nil
  | succ n ih =>
      rw [leftOpen?] at h
      split at h
      case h_1 before token hbefore htoken =>
        rw [← Nat.add_assoc, kinds_succ htoken]
        exact (ih hbefore).concat h
      case h_2 => cases h

theorem leftOpen?_le {n k : Nat} {left : List Bracket} (h : list.leftOpen? start n = some left)
    (hk : k ≤ n) : ∃ before, list.leftOpen? start k = some before := by
  induction hk generalizing left with
  | refl => exact ⟨left, h⟩
  | step _ ih =>
      rw [leftOpen?] at h
      split at h
      case h_1 before token hbefore _ => exact ih hbefore
      case h_2 => cases h

end TokenList

namespace Recognizer

/-- The tokens of an annotation are balanced in their parentheses, brackets and braces, and whatever
they begin with closes only brackets that it has opened. -/
theorem recognized_balanced (settings : Settings) (entry : Entry) (tokens : TokenList)
    (hend : ∃ stop, tokens.tokens.back? = some stop ∧ stop.kind = .endOfInput)
    (cursor : Cursor TokenKind) (h : cursor.Outermost tokens.toSource) (recognized : Recognized)
    (hok : ((build settings).recognize entry cursor).1 = .ok recognized) :
    let word := tokens.kinds cursor.index recognized.stop
    word.length = recognized.stop - cursor.index ∧ TokenKind.Balanced word ∧
      ∀ front, front <+: word → ∃ brackets, TokenKind.LeavesOpen front brackets := by
  intro word
  obtain ⟨stop, hback, hkind⟩ := hend
  have hmarked := TokenList.marked_of_back? hback hkind
  have hsize := TokenList.size_pos_of_back? hback
  obtain ⟨d, hd⟩ := derives_of_recognize h hok
  obtain ⟨hle, hlast⟩ := hd.bounds h.index_le _ rfl
  have hnests : Grammar.Nests false [] ((build settings).rule entry) [] := by
    cases entry with
    | plain => exact .plainEntry
    | file => exact .fileEntry
  have hnesting := hnests.nesting hmarked hd h.index_le _ rfl
  have hopen := (TokenList.leftOpen?_of_nesting hmarked.marker hnesting).1
  refine ⟨?_, ?_, fun front hfront => ?_⟩
  · apply TokenList.length_kinds
    rw [TokenList.last_toSource] at hlast
    exact Nat.le_trans hlast (Nat.sub_le _ 1)
  · have hleaves := TokenList.leavesOpen_of_leftOpen? hopen
    rw [Nat.add_sub_cancel' hle] at hleaves
    exact TokenKind.LeavesOpen.nil_iff.1 hleaves
  · rw [List.prefix_iff_eq_take] at hfront
    obtain ⟨brackets, hbrackets⟩ := TokenList.leftOpen?_le hopen (Nat.min_le_right front.length _)
    refine ⟨brackets, ?_⟩
    rw [hfront, TokenList.take_kinds]
    exact TokenList.leavesOpen_of_leftOpen? hbrackets

/-- The tokens of an annotation with brackets of all sorts inside one another. -/
def mixedBrackets : TokenList :=
  ⟨"@A([\x7bb\x7d])", #[⟨.atSign, ⟨0, 1⟩, .empty⟩, ⟨.identifier, ⟨1, 2⟩, .empty⟩,
    ⟨.leftParen, ⟨2, 3⟩, .empty⟩, ⟨.leftBracket, ⟨3, 4⟩, .empty⟩, ⟨.leftBrace, ⟨4, 5⟩, .empty⟩,
    ⟨.identifier, ⟨5, 6⟩, .empty⟩, ⟨.rightBrace, ⟨6, 7⟩, .empty⟩,
    ⟨.rightBracket, ⟨7, 8⟩, .empty⟩, ⟨.rightParen, ⟨8, 9⟩, .empty⟩,
    ⟨.endOfInput, ⟨9, 9⟩, .empty⟩]⟩

/-- A row of tokens that ends in front of the last three brackets leaves three of them open. -/
theorem recognized_balanced_mixedBrackets :
    let grammar := build {}
    (grammar.recognize .plain (grammar.cursor mixedBrackets)).1 = .ok ⟨⟨0, 9⟩, 9⟩ ∧
      TokenKind.Balanced (mixedBrackets.kinds 0 9) ∧
      ∃ brackets, TokenKind.LeavesOpen (mixedBrackets.kinds 0 6) brackets := by
  intro grammar
  have hok : (grammar.recognize .plain (grammar.cursor mixedBrackets)).1 = .ok ⟨⟨0, 9⟩, 9⟩ := by
    decide +kernel
  have hend : ∃ stop, mixedBrackets.tokens.back? = some stop ∧ stop.kind = .endOfInput :=
    ⟨_, rfl, rfl⟩
  obtain ⟨-, hbalanced, hfront⟩ := recognized_balanced {} .plain mixedBrackets hend
    (grammar.cursor mixedBrackets) (cursor_outermost grammar mixedBrackets) _ hok
  exact ⟨hok, hbalanced, hfront _ ⟨[.rightBrace, .rightBracket, .rightParen], rfl⟩⟩

end Recognizer
end AnnotationScan
