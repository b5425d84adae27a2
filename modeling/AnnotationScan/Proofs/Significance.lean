import AnnotationScan.Proofs.Agreement
import AnnotationScan.Proofs.Grammar.Lines
import AnnotationScan.Proofs.Token.Sources

/-!
# What matters of the tokens

An entry looks at the kinds of the tokens, tells the soft keywords among the identifiers, and asks
for line breaks where no parenthesis or bracket is the innermost one that is left open.  Two token
lists that agree on this much are told apart by no entry: it matches up to the same token of both or
fails for the same reason at the same token.
-/

namespace AnnotationScan

open Peg

/-- The brackets left open behind a token.  An opening one waits for its counterpart; there are none
if a closing one finds another bracket, or no bracket, open. -/
def Bracket.behind? (before : List Bracket) (kind : TokenKind) : Option (List Bracket) :=
  match kind.opened? false, kind.closed? false with
  | some b, _ => some (b :: before)
  | none, some b => if before.head? = some b then some before.tail else none
  | none, none => some before

namespace Bracket

variable {before after : List Bracket} {kind : TokenKind}

theorem behind?_of_read (hbefore : countsAngles false before = false)
    (h : read false before kind = some after) : behind? before kind = some after := by
  simp only [read, hbefore] at h
  split at h
  case isTrue => cases h
  case isFalse => exact h

theorem countsAngles_of_notMem (h : .angle ∉ before) : countsAngles false before = false := by
  cases before with
  | nil => rfl
  | cons b before => exact decide_eq_false fun hb => h (hb ▸ List.mem_cons_self)

theorem notMem_of_read (hbefore : .angle ∉ before) (h : read false before kind = some after) :
    .angle ∉ after := by
  have hbehind := behind?_of_read (countsAngles_of_notMem hbefore) h
  unfold behind? at hbehind
  split at hbehind
  case h_1 b hopened =>
    obtain rfl := Option.some.inj hbehind
    rw [List.mem_cons, not_or]
    refine ⟨?_, hbefore⟩
    rintro rfl
    cases kind <;> cases hopened
  case h_2 b =>
    rw [Option.ite_none_right_eq_some] at hbehind
    obtain ⟨-, ⟨⟩⟩ := hbehind
    exact fun hmem => hbefore (List.mem_of_mem_tail hmem)
  case h_3 =>
    obtain rfl := Option.some.inj hbehind
    exact hbefore

end Bracket

namespace TokenList

def leftOpen? (list : TokenList) (start : Nat) : (n : Nat) → Option (List Bracket)
  | 0 => some []
  | n + 1 =>
    match list.leftOpen? start n, list.get? (start + n) with
    | some before, some token => Bracket.behind? before token.kind
    | _, _ => none

/-- Two token lists agree on what an entry that starts at a token may look at. -/
structure Resembles (list list' : TokenList) (start : Nat) : Prop where
  size : list.size = list'.size
  kind : ∀ i, ∀ token ∈ list.get? i, ∀ token' ∈ list'.get? i, token.kind = token'.kind
  /-- Soft keywords stand for soft keywords. -/
  word : ∀ i, ∀ token ∈ list.get? i, token.kind = .identifier →
    ∀ word ∈ Grammar.softKeywords, list.text i = word ↔ list'.text i = word
  /-- Line breaks stand for line breaks inside braces and outside of all brackets. -/
  line : ∀ n, ∀ token ∈ list.get? (start + n), ∀ token' ∈ list'.get? (start + n),
    ∀ brackets ∈ list.leftOpen? start n, brackets.head? = none ∨ brackets.head? = some .brace →
      token.before.lineFeed = token'.before.lineFeed

variable {list list' : TokenList} {start : Nat}

theorem resembles_iff : list.Resembles list' start ↔
    list.size = list'.size ∧
    (∀ i < list.size, ∀ token ∈ list.get? i, (∀ token' ∈ list'.get? i, token.kind = token'.kind) ∧
      (token.kind = .identifier →
        ∀ word ∈ Grammar.softKeywords, list.text i = word ↔ list'.text i = word)) ∧
    ∀ n < list.size, ∀ token ∈ list.get? (start + n), ∀ token' ∈ list'.get? (start + n),
      ∀ brackets ∈ list.leftOpen? start n, brackets.head? = none ∨ brackets.head? = some .brace →
        token.before.lineFeed = token'.before.lineFeed := by
  constructor
  · rintro ⟨hsize, hkind, hword, hline⟩
    refine ⟨hsize, fun i _ token htoken => ⟨hkind i token htoken, hword i token htoken⟩, ?_⟩
    intro n _
    exact hline n
  · rintro ⟨hsize, hpair, hline⟩
    have hlt : ∀ i, ∀ token ∈ list.get? i, i < list.size := fun i token htoken =>
      (Array.getElem?_eq_some_iff.1 htoken).1
    constructor
    · exact hsize
    · exact fun i token htoken => (hpair i (hlt i token htoken) token htoken).1
    · exact fun i token htoken => (hpair i (hlt i token htoken) token htoken).2
    · intro n token htoken
      have hn := hlt _ token htoken
      exact hline n (by omega) token htoken

instance (list list' : TokenList) (start : Nat) : Decidable (list.Resembles list' start) :=
  decidable_of_iff _ resembles_iff.symm

/-- The brackets that a row of tokens is read with are the brackets left open. -/
theorem leftOpen?_of_nesting (hend : list.toSource.marker.kind = .endOfInput) {n : Nat}
    {inner : List Bracket} (h : list.toSource.nesting false [] start n = some inner) :
    list.leftOpen? start n = some inner ∧ .angle ∉ inner := by
  induction n generalizing inner with
  | zero =>
      obtain rfl := Option.some.inj h
      exact ⟨rfl, List.not_mem_nil⟩
  | succ n ih =>
      rw [Source.nesting, Option.bind_eq_some_iff] at h
      obtain ⟨before, hbefore, hread⟩ := h
      obtain ⟨hopen, hangle⟩ := ih hbefore
      refine ⟨?_, Bracket.notMem_of_read hangle hread⟩
      cases htoken : list.get? (start + n) with
      | some token =>
          rw [lexeme_toSource _ htoken] at hread
          rw [leftOpen?, hopen, htoken]
          exact Bracket.behind?_of_read (Bracket.countsAngles_of_notMem hangle) hread
      | none =>
          -- behind the tokens there are only end markers, and those are never read
          have hlast : list.toSource.last ≤ start + n := by
            rw [last_toSource]
            exact Nat.le_trans (Nat.sub_le _ 1) (Array.getElem?_eq_none_iff.1 htoken)
          rw [Source.lexeme_of_last_le _ hlast, hend] at hread
          cases hread

theorem size_pos_of_back? {stop : Token} (hstop : list.tokens.back? = some stop) :
    0 < list.size := by
  obtain ⟨front, hfront⟩ := Array.back?_eq_some_iff.1 hstop
  rw [size, hfront, Array.size_push]
  exact Nat.succ_pos _

theorem marked_of_back? {stop : Token} (hstop : list.tokens.back? = some stop)
    (hkind : stop.kind = .endOfInput) : list.toSource.Marked := by
  obtain ⟨source, tokens⟩ := list
  obtain ⟨front, rfl⟩ := Array.back?_eq_some_iff.1 hstop
  exact marked_toSource hkind source front

theorem Resembles.alikeFor (h : list.Resembles list' start) (hmarked : list.toSource.Marked)
    (hsize : 0 < list.size) (settings : Settings) (entry : Entry) :
    list.toSource.AlikeFor list'.toSource (Recognizer.build settings).definitions
      ((Recognizer.build settings).rule entry) true (min start list.toSource.last) := by
  intro part count place hv
  have hi := Nat.min_le_right start list.toSource.last
  have hlast : list.toSource.last = list'.toSource.last := by
    rw [last_toSource, last_toSource]
    exact congrArg (· - 1) h.size
  obtain ⟨hplace, hinside⟩ := hv.bounds hi
  obtain ⟨token, htoken⟩ := get?_of_le_last hsize hinside
  obtain ⟨token', htoken'⟩ := get?_of_le_last (h.size ▸ hsize) (hlast ▸ hinside)
  obtain ⟨inner, hinner, hheeds⟩ := Grammar.heeds_of_visits_entry hmarked hv hi
  have hkind := h.kind place token htoken token' htoken'
  constructor
  · exact hlast ▸ hinside
  · rw [Source.next, Source.next, hlast]
  · rw [lexeme_toSource _ htoken, lexeme_toSource _ htoken']
    exact hkind
  · rw [lexeme_toSource _ htoken, lexeme_toSource _ htoken']
    exact congrArg (· == TokenKind.identifier) hkind
  · intro text hpart hword
    rw [lexeme_toSource _ htoken] at hword ⊢
    rw [lexeme_toSource _ htoken']
    have hsame := h.word place token htoken (eq_of_beq hword) text (hheeds.keyword text hpart)
    rw [TokenList.text, TokenList.text, htoken, htoken'] at hsame
    exact hsame
  · rintro rfl rfl
    rw [lexeme_toSource _ htoken, lexeme_toSource _ htoken']
    -- the entry starts at `start` itself, since no line break is tested for at the end marker
    have hlt := Grammar.lt_of_visits_entry hmarked hv hi
    have hstart : min start list.toSource.last = start := Nat.min_eq_left (by omega)
    rw [hstart] at hinner hplace
    have hopen := (leftOpen?_of_nesting hmarked.marker hinner).1
    refine h.line (place - start) token ?_ token' ?_ inner hopen ?_
    · rw [Nat.add_sub_cancel' hplace]
      exact htoken
    · rw [Nat.add_sub_cancel' hplace]
      exact htoken'
    · have hcounts := hheeds.lineBreak rfl
      cases inner with
      | nil => exact .inl rfl
      | cons b inner => exact .inr (congrArg some (of_decide_eq_true hcounts.symm))

end TokenList

/-- Failures correspond if they have the same reason and the same token; any value may stand for
another one. -/
def Peg.Likeness.placed {κ : Type} (source source' : Source κ) : Likeness source source' where
  failure f g := f.reason = g.reason ∧ f.index = g.index
  value _ _ := True
  failureAt _ _ := ⟨rfl, rfl⟩
  deeper := Failure.deeper_rel (R := fun f g => f.reason = g.reason ∧ f.index = g.index)
    fun _ _ h => h.2
  better := Failure.better_rel (R := fun f g => f.reason = g.reason ∧ f.index = g.index)
    fun _ _ h => h
  lexeme _ := trivial
  spanFrom _ _ := trivial
  endPoint _ := trivial

namespace Recognizer

/-- An entry answers alike on token lists that agree on kinds, soft keywords and significant line
breaks. -/
theorem recognize_resembling (settings : Settings) (entry : Entry) (list list' : TokenList)
    (start : Nat) (hend : ∃ stop, list.tokens.back? = some stop ∧ stop.kind = .endOfInput)
    (h : list.Resembles list' start) :
    let grammar := build settings
    let answer (tokens : TokenList) :=
      (grammar.recognize entry ((grammar.cursor tokens).moveTo start)).1
    (∃ span span' stop, answer list = .ok ⟨span, stop⟩ ∧ answer list' = .ok ⟨span', stop⟩) ∨
      ∃ failure failure', answer list = .error failure ∧ answer list' = .error failure' ∧
        failure.reason = failure'.reason ∧ failure.index = failure'.index := by
  intro grammar answer
  obtain ⟨stop, hstop, hkind⟩ := hend
  have hsize := TokenList.size_pos_of_back? hstop
  have hmarked := TokenList.marked_of_back? hstop hkind
  have hlast : list.toSource.last = list'.toSource.last := by
    rw [TokenList.last_toSource, TokenList.last_toSource]
    exact congrArg (· - 1) h.size
  have hindex : min start list.toSource.last = min start list'.toSource.last := by rw [hlast]
  have hanswer := grammar.recognize_alike entry (.placed list.toSource list'.toSource)
    (grammar.cursor_moveTo_outermost list start) (grammar.cursor_moveTo_outermost list' start)
    hindex rfl (h.alikeFor hmarked hsize settings entry)
  change (Likeness.placed _ _).Answer (answer list) (answer list') at hanswer
  generalize answer list = x at hanswer ⊢
  generalize answer list' = y at hanswer ⊢
  cases hanswer with
  | @ok v w stop _ => exact .inl ⟨v, w, stop, rfl, rfl⟩
  | @error f g hfailure => exact .inr ⟨f, g, rfl, rfl, hfailure⟩

def spread : TokenList :=
  ⟨"@A(\n1)", #[⟨.atSign, ⟨0, 1⟩, .empty⟩, ⟨.identifier, ⟨1, 2⟩, .empty⟩,
    ⟨.leftParen, ⟨2, 3⟩, .empty⟩, ⟨.integerLiteral, ⟨4, 5⟩, { lineFeed := true }⟩,
    ⟨.rightParen, ⟨5, 6⟩, .empty⟩, ⟨.endOfInput, ⟨6, 6⟩, .empty⟩]⟩

/-- The same annotation under another name and on one line, with another argument. -/
def compact : TokenList :=
  ⟨"@B(2)", #[⟨.atSign, ⟨0, 1⟩, .empty⟩, ⟨.identifier, ⟨1, 2⟩, .empty⟩,
    ⟨.leftParen, ⟨2, 3⟩, .empty⟩, ⟨.integerLiteral, ⟨3, 4⟩, .empty⟩,
    ⟨.rightParen, ⟨4, 5⟩, .empty⟩, ⟨.endOfInput, ⟨5, 5⟩, .empty⟩]⟩

/-- Neither the name nor the line break in the parentheses nor the argument matters. -/
theorem recognize_resembling_spread :
    let answer (tokens : TokenList) :=
      ((build {}).recognize .plain (((build {}).cursor tokens).moveTo 0)).1
    spread.Resembles compact 0 ∧ answer spread = .ok ⟨⟨0, 6⟩, 5⟩ ∧
      ∃ span, answer compact = .ok ⟨span, 5⟩ := by
  intro answer
  have hresembles : spread.Resembles compact 0 := by decide +kernel
  have hspread : answer spread = .ok ⟨⟨0, 6⟩, 5⟩ := by decide +kernel
  have hend : ∃ stop, spread.tokens.back? = some stop ∧ stop.kind = .endOfInput := ⟨_, rfl, rfl⟩
  refine ⟨hresembles, hspread, ?_⟩
  rcases recognize_resembling {} .plain spread compact 0 hend hresembles with
    ⟨span, span', stop, hok, hok'⟩ | ⟨failure, failure', herror, -⟩
  · obtain ⟨-, rfl⟩ := Recognized.mk.inj (Except.ok.inj (hspread.symm.trans hok))
    exact ⟨span', hok'⟩
  · cases hspread.symm.trans herror

end Recognizer
end AnnotationScan
