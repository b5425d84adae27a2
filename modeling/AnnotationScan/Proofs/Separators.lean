import AnnotationScan.Proofs.Grammar.Separation
import AnnotationScan.Proofs.Significance

/-!
# Line breaks that separate statements

In a lambda a line break in front of an opening bracket separates the statement that a literal ends
from the next one, as a semicolon does: an annotation is recognized with the one as with the other.
The one exception is an index that is assigned to, which is read over the line break.
-/

namespace AnnotationScan

open Peg

namespace TokenList

def inserting (list : TokenList) (index : Nat) (token : Token) : TokenList :=
  { list with tokens := list.tokens.insertIdxIfInBounds index token }

variable {list : TokenList} {i j start : Nat} {token : Token}

theorem tokens_inserting (hj : j ≤ list.tokens.size) :
    (list.inserting j token).tokens = list.tokens.insertIdx j token hj := dif_pos hj

theorem back?_inserting (hj : j < list.tokens.size) :
    (list.inserting j token).tokens.back? = list.tokens.back? := by
  rw [tokens_inserting (Nat.le_of_lt hj), Array.back?, Array.back?, Array.size_insertIdx,
    Nat.add_sub_cancel, Array.getElem?_insertIdx, if_neg (by omega), if_neg (by omega)]

theorem last_inserting (hj : j < list.tokens.size) :
    (list.inserting j token).toSource.last = list.toSource.last + 1 := by
  rw [last_toSource, last_toSource, tokens_inserting (Nat.le_of_lt hj), Array.size_insertIdx]
  omega

theorem lexeme_inserting_front (hj : j < list.tokens.size) (hi : i < j) :
    (list.inserting j token).toSource.lexeme i = list.toSource.lexeme i := by
  have hget : list.tokens[i]? = some list.tokens[i] := Array.getElem?_eq_getElem (by omega)
  have hget' : (list.inserting j token).tokens[i]? = some list.tokens[i] := by
    rw [tokens_inserting (Nat.le_of_lt hj), Array.getElem?_insertIdx, if_pos hi, hget]
  rw [lexeme_toSource _ hget, lexeme_toSource _ hget']
  rfl

theorem lexeme_inserting_self (hj : j ≤ list.tokens.size) :
    (list.inserting j token).toSource.lexeme j = list.lexemeOf token := by
  have hget : (list.inserting j token).tokens[j]? = some token := by
    rw [tokens_inserting hj, Array.getElem?_insertIdx, if_neg (Nat.lt_irrefl j), if_pos rfl,
      if_pos hj]
  rw [lexeme_toSource _ hget]
  rfl

theorem lexeme_inserting_behind (hj : j < list.tokens.size) (hi : j ≤ i) :
    (list.inserting j token).toSource.lexeme (i + 1) = list.toSource.lexeme i := by
  have hlexeme : ∀ i < list.tokens.size, j ≤ i →
      (list.inserting j token).toSource.lexeme (i + 1) = list.toSource.lexeme i := by
    intro i hlt hi
    have hget : list.tokens[i]? = some list.tokens[i] := Array.getElem?_eq_getElem hlt
    have hget' : (list.inserting j token).tokens[i + 1]? = some list.tokens[i] := by
      rw [tokens_inserting (Nat.le_of_lt hj), Array.getElem?_insertIdx, if_neg (by omega),
        if_neg (by omega), Nat.add_sub_cancel, hget]
    rw [lexeme_toSource _ hget, lexeme_toSource _ hget']
    rfl
  have hlast := last_toSource list
  have hlast' : (list.inserting j token).toSource.last = _ := last_inserting hj
  rcases Nat.lt_or_ge i list.tokens.size with hlt | hge
  · exact hlexeme i hlt hi
  · -- behind the tokens there are only end markers
    have hmarker := hlexeme list.toSource.last (by omega) (by omega)
    rw [Source.lexeme_of_last_le _ (by omega), Source.lexeme_of_last_le _ (by omega)] at hmarker ⊢
    exact hmarker

/-- An opening bracket starts a line of a lambda behind a literal: of the brackets that are open
there, as seen from `start`, a brace is the innermost one. -/
structure OpensLine (list : TokenList) (start j : Nat) : Prop where
  literal : ∃ i, i + 1 = j ∧ ∃ token, list.get? i = some token ∧ token.kind ∈ Grammar.literals
  opening : ∃ token, list.get? j = some token ∧ token.kind ∈ Grammar.openings ∧
    token.before.lineFeed = true
  brace : ∀ brackets ∈ list.leftOpen? start (j - start), brackets.head? = some .brace

namespace OpensLine

theorem lt_size (h : list.OpensLine start j) : j < list.tokens.size := by
  obtain ⟨token, htoken, -⟩ := h.opening
  exact (Array.getElem?_eq_some_iff.1 htoken).1

theorem start_lt (h : list.OpensLine start j) : start < j := by
  by_contra hle
  have hbrace := h.brace []
  rw [Nat.sub_eq_zero_of_le (Nat.le_of_not_lt hle)] at hbrace
  cases hbrace rfl

theorem behind?_literal {kind : TokenKind} (hkind : kind ∈ Grammar.literals)
    (before : List Bracket) : Bracket.behind? before kind = some before := by
  have hplain : ∀ kind ∈ Grammar.literals,
      kind.opened? false = none ∧ kind.closed? false = none := by
    decide
  obtain ⟨hopened, hclosed⟩ := hplain kind hkind
  rw [Bracket.behind?, hopened, hclosed]

theorem head?_eq_brace (h : list.OpensLine start j) {place : Nat} (hstart : start ≤ place)
    (hplace : place = j ∨ place + 1 = j) {inner : List Bracket}
    (hinner : list.leftOpen? start (place - start) = some inner) : inner.head? = some .brace := by
  rcases hplace with rfl | rfl
  · exact h.brace inner hinner
  · obtain ⟨i, hi, token, htoken, hkind⟩ := h.literal
    obtain rfl : i = place := Nat.succ.inj hi
    refine h.brace inner ?_
    rw [Nat.sub_add_comm hstart, leftOpen?, hinner, Nat.add_sub_cancel' hstart, htoken]
    exact behind?_literal hkind inner

theorem countsAt (h : list.OpensLine start j) (hmarked : list.toSource.Marked) (trace : Bool) :
    Grammar.CountsAt list.toSource trace j (Grammar.plainEntry trace) true start := by
  intro part count place hv hpart hplace
  have hstart : start ≤ list.toSource.last := by
    rw [last_toSource]
    have := h.start_lt
    have := h.lt_size
    omega
  have hv' : Visits list.toSource (Recognizer.build { traceRules := trace }).definitions part count
      place ((Recognizer.build { traceRules := trace }).rule .plain) true start := hv
  obtain ⟨inner, hinner, hheeds⟩ := Grammar.heeds_of_visits_entry hmarked hv' hstart
  have hopen := (leftOpen?_of_nesting hmarked.marker hinner).1
  have hhead := h.head?_eq_brace (hv.bounds hstart).1 hplace hopen
  have hcount : count = Bracket.countsLines true inner := by
    rcases hpart with rfl | rfl
    · exact hheeds.lineBreak rfl
    · exact hheeds.ref _ rfl
  cases inner with
  | nil => cases hhead
  | cons b inner =>
      obtain rfl := Option.some.inj hhead
      exact hcount

theorem separates (h : list.OpensLine start j) {trace : Bool} {stop semicolon : Token}
    (hstop : list.tokens.back? = some stop) (hend : stop.kind = .endOfInput)
    (hsemicolon : semicolon.kind = .semicolon)
    (hindex : ∀ k,
      Matches list.toSource (Grammar.definitions trace) Grammar.indexingSuffix true j k →
        (list.toSource.lexeme k).kind ≠ .assign) :
    Grammar.Separates list.toSource (list.inserting j semicolon).toSource trace j := by
  have hsize := h.lt_size
  obtain ⟨opening, hopening, hkind, hline⟩ := h.opening
  constructor
  · exact marked_of_back? hstop hend
  · exact marked_of_back? ((back?_inserting hsize).trans hstop) hend
  · exact last_inserting hsize
  · exact fun i hi => lexeme_inserting_front hsize hi
  · rw [lexeme_inserting_self (Nat.le_of_lt hsize)]
    exact hsemicolon
  · exact fun i hi => lexeme_inserting_behind hsize hi
  · rintro i hi
    obtain ⟨i', hi', literal, hliteral, hliterals⟩ := h.literal
    obtain rfl : i' = i := by omega
    rw [lexeme_toSource _ hliteral]
    exact hliterals
  · rw [lexeme_toSource _ hopening]
    exact hkind
  · rw [lexeme_toSource _ hopening]
    exact hline
  · exact hindex

end OpensLine
end TokenList

namespace Recognizer

/-- A line break in front of an opening bracket separates statements as a semicolon does. -/
theorem recognizeAt_separated (settings : Settings) (list : TokenList) (start j : Nat)
    (semicolon : Token) (hend : ∃ stop, list.tokens.back? = some stop ∧ stop.kind = .endOfInput)
    (hopens : list.OpensLine start j) (hsemicolon : semicolon.kind = .semicolon)
    (hindex : ∀ k, Matches list.toSource (Grammar.definitions settings.traceRules)
      Grammar.indexingSuffix true j k → (list.toSource.lexeme k).kind ≠ .assign)
    (hlimit : ∀ tokens ∈ [list, list.inserting j semicolon], ∀ failure,
      (build settings).recognizeAt tokens start = .error failure →
        ∀ limit, failure.reason ≠ .depthLimit limit) :
    let answer (tokens : TokenList) := (build settings).recognizeAt tokens start
    (∃ span span' stop, answer list = .ok ⟨span, stop⟩ ∧
        answer (list.inserting j semicolon) = .ok ⟨span', if stop < j then stop else stop + 1⟩) ∨
      (∃ failure, answer list = .error failure) ∧
        ∃ failure, answer (list.inserting j semicolon) = .error failure := by
  intro answer
  obtain ⟨stop, hstop, hkind⟩ := hend
  have hseparates := hopens.separates hstop hkind hsemicolon hindex
  have hcounts := hopens.countsAt hseparates.marked settings.traceRules
  have hstart := hopens.start_lt
  have hj := hseparates.lt_last
  have hlast := hseparates.last
  have hdecides : ∀ tokens ∈ [list, list.inserting j semicolon], start ≤ tokens.toSource.last →
      ∃ d o, Derives tokens.toSource (Grammar.definitions settings.traceRules) d
          (Grammar.plainEntry settings.traceRules) true start o ∧ Answers o (answer tokens) := by
    intro tokens htokens hle
    have hanswer : ∀ failure, ((build settings).recognize .plain
        (((build settings).cursor tokens).moveTo start)).1 = .error failure →
          ∀ limit, failure.reason ≠ .depthLimit limit := hlimit tokens htokens
    have hderives := exists_derives_of_recognize
      ((build settings).cursor_moveTo_outermost tokens start) hanswer
    have hmin : (((build settings).cursor tokens).moveTo start).index = start := Nat.min_eq_left hle
    rwa [hmin] at hderives
  obtain ⟨d, o, hd, ho⟩ := hdecides list (by simp) (by omega)
  obtain ⟨d', o', hd', ho'⟩ := hdecides (list.inserting j semicolon) (by simp) (by omega)
  obtain ⟨spot, hspot, hfits⟩ : ∃ spot : Grammar.Spot, spot.Holds j start start ∧
      Grammar.fits spot (Grammar.plainEntry settings.traceRules) = true := by
    obtain ⟨hbefore, hliteral⟩ := Grammar.fits_plainEntry settings.traceRules
    rcases Nat.eq_or_lt_of_le hstart with heq | hlt
    · exact ⟨.literal, ⟨heq, rfl⟩, hliteral⟩
    · exact ⟨.before, ⟨hlt, rfl⟩, hbefore⟩
  have hmirrors := hseparates.mirrors hd (by omega) hspot hfits hcounts
  cases o with
  | matched span stop =>
      obtain ⟨next, k', hnext, e, span', he⟩ := hmirrors
      obtain rfl := hd'.unique he (by omega)
      -- an annotation does not end in a literal
      have hne : stop ≠ j := by
        rintro rfl
        have hends := Grammar.endsAtLiteral_of_derives hseparates.marked (Nat.le_of_lt hj)
          hseparates.literal hd hstart rfl
        obtain ⟨hfar, hclose⟩ := Grammar.endsAtLiteral_plainEntry settings.traceRules
        cases hbeq : start + 1 == stop with
        | false => cases (hbeq ▸ hends).symm.trans hfar
        | true => cases (hbeq ▸ hends).symm.trans hclose
      refine .inl ⟨span, span', stop, ho, ?_⟩
      rw [← hnext.stop_eq hne]
      exact ho'
  | failed f =>
      obtain ⟨e, f', he⟩ := hmirrors
      obtain rfl := hd'.unique he (by omega)
      exact .inr ⟨ho, ho'⟩
  | aborted cause => cases hd.isDecided

/-- The tokens of an annotation whose argument is a lambda with a number on one line and a list on
the next one. -/
def numberThenList : TokenList :=
  ⟨"@A(\x7b 1\n[0] \x7d)", #[⟨.atSign, ⟨0, 1⟩, .empty⟩, ⟨.identifier, ⟨1, 2⟩, .empty⟩,
    ⟨.leftParen, ⟨2, 3⟩, .empty⟩, ⟨.leftBrace, ⟨3, 4⟩, .empty⟩,
    ⟨.integerLiteral, ⟨5, 6⟩, { blank := true }⟩, ⟨.leftBracket, ⟨7, 8⟩, { lineFeed := true }⟩,
    ⟨.integerLiteral, ⟨8, 9⟩, .empty⟩, ⟨.rightBracket, ⟨9, 10⟩, .empty⟩,
    ⟨.rightBrace, ⟨11, 12⟩, { blank := true }⟩, ⟨.rightParen, ⟨12, 13⟩, .empty⟩,
    ⟨.endOfInput, ⟨13, 13⟩, .empty⟩]⟩

/-- The same with a number assigned to the list, which is then an index. -/
def numberThenAssignment : TokenList :=
  ⟨"@A(\x7b 1\n[0] = 5 \x7d)", #[⟨.atSign, ⟨0, 1⟩, .empty⟩, ⟨.identifier, ⟨1, 2⟩, .empty⟩,
    ⟨.leftParen, ⟨2, 3⟩, .empty⟩, ⟨.leftBrace, ⟨3, 4⟩, .empty⟩,
    ⟨.integerLiteral, ⟨5, 6⟩, { blank := true }⟩, ⟨.leftBracket, ⟨7, 8⟩, { lineFeed := true }⟩,
    ⟨.integerLiteral, ⟨8, 9⟩, .empty⟩, ⟨.rightBracket, ⟨9, 10⟩, .empty⟩,
    ⟨.assign, ⟨11, 12⟩, { blank := true }⟩, ⟨.integerLiteral, ⟨13, 14⟩, { blank := true }⟩,
    ⟨.rightBrace, ⟨15, 16⟩, { blank := true }⟩, ⟨.rightParen, ⟨16, 17⟩, .empty⟩,
    ⟨.endOfInput, ⟨17, 17⟩, .empty⟩]⟩

def lineEnd : Token := ⟨.semicolon, ⟨6, 6⟩, .empty⟩

theorem opensLine_number {list : TokenList}
    (hliteral : list.get? 4 = some ⟨.integerLiteral, ⟨5, 6⟩, { blank := true }⟩)
    (hopening : list.get? 5 = some ⟨.leftBracket, ⟨7, 8⟩, { lineFeed := true }⟩)
    (hbrace : list.leftOpen? 0 5 = some [.brace, .paren]) : list.OpensLine 0 5 := by
  refine ⟨⟨4, rfl, _, hliteral, by decide⟩, ⟨_, hopening, by decide, rfl⟩, ?_⟩
  rintro brackets hbrackets
  obtain rfl := Option.some.inj (hbrace.symm.trans hbrackets)
  rfl

theorem recognizeAt_separated_numberThenList :
    numberThenList.OpensLine 0 5 ∧ (build {}).recognizeAt numberThenList 0 = .ok ⟨⟨0, 13⟩, 10⟩ ∧
      ∃ span, (build {}).recognizeAt (numberThenList.inserting 5 lineEnd) 0 = .ok ⟨span, 11⟩ := by
  have hopens : numberThenList.OpensLine 0 5 := opensLine_number rfl rfl rfl
  have hanswer : (build {}).recognizeAt numberThenList 0 = .ok ⟨⟨0, 13⟩, 10⟩ := by decide +kernel
  have hok : ∀ tokens ∈ [numberThenList, numberThenList.inserting 5 lineEnd],
      ((build {}).recognizeAt tokens 0).isOk = true := by decide +kernel
  have hnone : ∀ k ≤ 10, (numberThenList.toSource.lexeme k).kind ≠ .assign := by decide +kernel
  have hlast : numberThenList.toSource.last = 10 := by decide +kernel
  have hseparated := recognizeAt_separated {} numberThenList 0 5 lineEnd ⟨_, rfl, rfl⟩ hopens rfl
    (fun k hmatch => hnone k (hlast ▸ (hmatch.bounds (by omega)).2)) (by
      intro tokens htokens failure hfailure
      cases (hfailure ▸ hok tokens htokens : Except.isOk (.error failure) = true))
  refine ⟨hopens, hanswer, ?_⟩
  rcases hseparated with ⟨span, span', stop, hshorter, hlonger⟩ | ⟨⟨failure, hfailure⟩, -⟩
  · obtain ⟨-, rfl⟩ := Recognized.mk.inj (Except.ok.inj (hanswer.symm.trans hshorter))
    exact ⟨span', hlonger⟩
  · cases hanswer.symm.trans hfailure

theorem not_forall_recognizeAt_separated :
    ¬∀ (settings : Settings) (list : TokenList) (start j : Nat) (semicolon : Token),
      (∃ stop, list.tokens.back? = some stop ∧ stop.kind = .endOfInput) →
      list.OpensLine start j → semicolon.kind = .semicolon →
      (∀ tokens ∈ [list, list.inserting j semicolon], ∀ failure,
        (build settings).recognizeAt tokens start = .error failure →
          ∀ limit, failure.reason ≠ .depthLimit limit) →
      let answer (tokens : TokenList) := (build settings).recognizeAt tokens start
      (∃ span span' stop, answer list = .ok ⟨span, stop⟩ ∧
          answer (list.inserting j semicolon) = .ok ⟨span', if stop < j then stop else stop + 1⟩) ∨
        (∃ failure, answer list = .error failure) ∧
          ∃ failure, answer (list.inserting j semicolon) = .error failure := by
  intro hforall
  have haccepted : (build {}).recognizeAt numberThenAssignment 0 = .ok ⟨⟨0, 17⟩, 12⟩ := by
    decide +kernel
  have hrejected : (build {}).recognizeAt (numberThenAssignment.inserting 5 lineEnd) 0 =
      .error ⟨.expected "`++`", 9, 11⟩ := by
    decide +kernel
  have hopens : numberThenAssignment.OpensLine 0 5 := opensLine_number rfl rfl rfl
  have hanswers := hforall {} numberThenAssignment 0 5 lineEnd ⟨_, rfl, rfl⟩ hopens rfl (by
    rw [List.forall_mem_cons, List.forall_mem_singleton, haccepted, hrejected]
    exact ⟨nofun, by rintro failure ⟨⟩ limit; exact nofun⟩)
  rcases hanswers with ⟨span, span', stop, -, hlonger⟩ | ⟨⟨failure, hfailure⟩, -⟩
  · cases hrejected.symm.trans hlonger
  · cases haccepted.symm.trans hfailure

end Recognizer
end AnnotationScan
