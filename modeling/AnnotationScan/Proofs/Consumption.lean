import AnnotationScan.Proofs.Grammar.Prolongation
import AnnotationScan.Proofs.Recognition
import AnnotationScan.Proofs.Token.Search
import AnnotationScan.Scan

/-!
# What a scan consumes

A text that is an annotation as a whole is followed by a gap and any other text, be it malformed.
Then a scan takes the annotation and the gap and nothing else, unless the other text starts with a
token that continues a type or holds arguments.
-/

namespace AnnotationScan

open Peg

namespace Grammar

variable {source source' : Source TokenKind} {trace : Bool} {d i j : Nat} {m : Bool} {v : Span}

theorem plainEntry_value
    (h : Derives source (definitions trace) d (plainEntry trace) m i (.matched v j)) :
    v = source.spanFrom i j := by
  cases derives_of_named h with
  | orElseFirst hsingle =>
      cases derives_of_named hsingle with
      | andThen => rfl
  | orElseSecond _ hmulti =>
      cases derives_of_named hmulti with
      | andThen => rfl

/-- Behind an annotation that a source consists of, any source goes on that has the tokens of the
first one and then one that is harmless. -/
theorem Prolongs.of_derives (h : source.Continues source')
    (hd : Derives source (definitions trace) d (plainEntry trace) m 0 (.matched v source.last))
    (hharmless : (source.lexeme (source.last - 1)).kind ∈ EndsIn.typeKinds →
      Harmless (source'.lexeme source.last)) : Prolongs source source' := by
  have hzero := Nat.zero_le source.last
  refine ⟨h, Nests.plainEntry.nesting h.marked hd hzero _ rfl, ?_, hharmless⟩
  rcases EndsIn.plainEntry.lastAmong h.marked rfl hd hzero _ rfl with ⟨-, hfalse⟩ | ⟨-, hkind⟩
  · cases hfalse
  · exact hkind

end Grammar

namespace Recognizer

def matchAt (settings : Settings) (source : Source TokenKind) : Outcome :=
  ((Grammar.plainEntry settings.traceRules).run source 0
    ((Grammar.definitions settings.traceRules).invoke source settings.maxDepth settings.maxDepth)
    {} 0 ({} : State)).1

theorem entryParse_eq_matchAt (settings : Settings) (tokens : TokenList) :
    ((build settings).entryParse .plain (((build settings).cursor tokens).moveTo 0)).1 =
      matchAt settings tokens.toSource := by
  have houtermost : (((build settings).cursor tokens).moveTo 0).Outermost tokens.toSource :=
    ⟨rfl, rfl, rfl, Nat.min_le_right _ _⟩
  have hindex : (((build settings).cursor tokens).moveTo 0).index = 0 := Nat.zero_min _
  have hparse := (houtermost.forget (build settings).definitions).parse_eq (build settings).plain
  rw [entryParse, rule, hparse]
  simp only [Cursor.forgetResults, Cursor.forgetFailure, hindex]
  rfl

theorem scan_eq_matched_iff {settings : Settings} {text : String} {span : Span} {stop : Nat} :
    (build settings).scan text = .matched span stop ↔
      ∃ j, matchAt settings (Tokenized.ofSource text).tokens.toSource = .matched span j ∧
        stop = ((Tokenized.ofSource text).tokens.get? j).elim span.stop (·.span.start) := by
  rw [scan, scanAt, TokenList.firstAtOrAfter_zero, recognizeAt, recognize_eq, ← entryParse_eq_matchAt]
  generalize (build settings).entryParse _ _ = parsed
  have herror : ∀ failure, (Tokenized.ofSource text).verdict (.error failure) ≠
      .matched span stop := by
    intro failure
    simp only [Tokenized.verdict]
    split <;> simp
  obtain ⟨outcome, after⟩ := parsed
  cases outcome with
  | matched span' j =>
      simp only [Tokenized.verdict, Verdict.matched.injEq, Outcome.matched.injEq]
      constructor
      · rintro ⟨rfl, rfl⟩
        exact ⟨j, ⟨rfl, rfl⟩, rfl⟩
      · rintro ⟨_, ⟨rfl, rfl⟩, rfl⟩
        exact ⟨rfl, rfl⟩
  | failed failure => simp [herror]
  | aborted cause =>
      cases cause with
      | fatal failure => simp [herror]
      | undefinedRule name => simp [herror]

theorem derives_of_matchAt {settings : Settings} {source : Source TokenKind} {v : Span} {j : Nat}
    (h : matchAt settings source = .matched v j) :
    ∃ d, Derives source (Grammar.definitions settings.traceRules) d
      (Grammar.plainEntry settings.traceRules) true 0 (.matched v j) := by
  have hempty : ({} : State).Truthful source (Grammar.definitions settings.traceRules) :=
    State.truthful_of_memo_empty rfl
  exact Grammar.derives_of_run (Nat.zero_le _) hempty (Prod.ext h rfl)

/-- An annotation that a source consists of is recognized wherever it goes on with a harmless
token. -/
theorem matchAt_prolonged {settings : Settings} {source source' : Source TokenKind} {v : Span}
    (h : source.Continues source') (hmatch : matchAt settings source = .matched v source.last)
    (hharmless : (source.lexeme (source.last - 1)).kind ∈ Grammar.EndsIn.typeKinds →
      Grammar.Harmless (source'.lexeme source.last)) :
    matchAt settings source' = .matched v source.last := by
  obtain ⟨d, hd⟩ := derives_of_matchAt hmatch
  have hprolongs := Grammar.Prolongs.of_derives h hd hharmless
  have hshared : (Likeness.loose source source').Shared
      (Grammar.definitions settings.traceRules) ({} : State) {} :=
    ⟨State.truthful_of_memo_empty rfl, .none, fun _ _ _ _ _ => by simp⟩
  have hsteady : Grammar.Steady source source' settings.traceRules settings.maxDepth
      (Grammar.plainEntry settings.traceRules) 0 := .plainEntry hprolongs
  obtain ⟨houtcome, -⟩ := (hsteady {} {} {} rfl hshared).of_false
  change (Likeness.loose source source').Outcome (matchAt settings source)
    (matchAt settings source') at houtcome
  rw [hmatch] at houtcome
  generalize hmatch' : matchAt settings source' = outcome at houtcome ⊢
  cases houtcome with
  | matched hw =>
      obtain ⟨d', hd'⟩ := derives_of_matchAt hmatch'
      rw [Grammar.plainEntry_value hd', Grammar.plainEntry_value hd,
        h.spanFrom hprolongs.pos (Nat.le_refl _)]

end Recognizer

namespace Tokenized

variable {settings : Settings} {text : String} {j : Nat}

theorem last_of_matchAt (h : Recognizer.matchAt settings (ofSource text).tokens.toSource =
      .matched ⟨0, text.utf8ByteSize⟩ j) :
    j = (ofSource text).tokens.toSource.last ∧
      ∃ token ∈ (progress text).tokens, token.span.stop = text.utf8ByteSize := by
  obtain ⟨d, hd⟩ := Recognizer.derives_of_matchAt h
  have hmarked := marked_ofSource text
  have hj := (hd.bounds (Nat.zero_le _) _ rfl).2
  have hpos : 0 < j := by
    rcases Grammar.EndsIn.plainEntry.lastAmong hmarked rfl hd (Nat.zero_le _) _ rfl with
      ⟨-, hfalse⟩ | ⟨hpos, -⟩
    · cases hfalse
    · exact hpos
  have hvalue := Grammar.plainEntry_value hd
  have hlaid := laid_progress text
  rw [last_ofSource] at hj ⊢
  rw [Source.spanFrom, if_neg (by omega), lexeme_ofSource (show 0 < _ by omega),
    lexeme_ofSource (show j - 1 < _ by omega)] at hvalue
  have hstop : text.utf8ByteSize = max (progress text).tokens[0].span.stop
      (progress text).tokens[j - 1].span.stop := congrArg Span.stop hvalue
  have hordered := List.pairwise_iff_getElem.1 hlaid.ordered
  simp only [Array.length_toList, Array.getElem_toList] at hordered
  constructor
  · refine Nat.le_antisymm hj (Nat.le_of_not_lt fun hlt => ?_)
    obtain ⟨part, hpart⟩ := hlaid.covers (progress text).tokens[j] (by simp)
    have hbounds := hpart.bounds
    have hfirst := hordered 0 j (by omega) hlt hpos
    have hbefore := hordered (j - 1) j (by omega) hlt (by omega)
    rw [← utf8ByteSize_eq] at hbounds
    omega
  · rcases Nat.le_total (progress text).tokens[0].span.stop
      (progress text).tokens[j - 1].span.stop with hle | hle
    · exact ⟨_, Array.getElem_mem _, (hstop.trans (Nat.max_eq_right hle)).symm⟩
    · exact ⟨_, Array.getElem_mem _, (hstop.trans (Nat.max_eq_left hle)).symm⟩

theorem complete_of_matchAt (h : Recognizer.matchAt settings (ofSource text).tokens.toSource =
      .matched ⟨0, text.utf8ByteSize⟩ j) :
    Piece.Complete (Piece.ofText text.toList).toList := by
  obtain ⟨rfl, hend⟩ := last_of_matchAt h
  obtain ⟨d, hd⟩ := Recognizer.derives_of_matchAt h
  have hmarked := marked_ofSource text
  refine Progress.complete_ofText (fun token htoken hkind => ?_) ?_
  · obtain ⟨i, hi, rfl⟩ := Array.getElem_of_mem htoken
    change i < (progress text).tokens.size at hi
    have hentry : Grammar.Nests true [] (Grammar.plainEntry settings.traceRules) [] := .plainEntry
    have hwhole := hentry.nesting hmarked hd (Nat.zero_le _) _ rfl
    have hsupported := Source.isUnsupported_of_nesting hwhole (by rw [last_ofSource]; exact hi)
    rw [Nat.zero_add, lexeme_ofSource hi] at hsupported
    change (progress text).tokens[i].kind.isUnsupported = false at hsupported
    change (progress text).tokens[i].kind = _ at hkind
    rw [hkind] at hsupported
    cases hsupported
  · rw [← utf8ByteSize_eq]
    exact hend

/-- The token that a text starts with, or the mark of its end. -/
def firstToken? (tokenized : Tokenized) : Option Token := tokenized.tokens.get? 0

def lastToken? (tokenized : Tokenized) : Option Token := tokenized.tokens.tokens.pop.back?

/-- The text ends in a bracket behind which nothing is taken for a part of an annotation. -/
def EndsClosed (tokenized : Tokenized) : Prop :=
  ∃ last, tokenized.lastToken? = some last ∧
    (last.kind = .rightParen ∨ last.kind = .rightBracket)

end Tokenized

/-- A token behind a gap that is not taken for a part of the annotation in front of the gap. -/
structure Token.StandsApart (gap : String) (token : Token) : Prop where
  less : token.kind ≠ .less
  dot : token.kind ≠ .dot
  colon : token.kind ≠ .colon
  leftParen : token.kind = .leftParen → '\n' ∈ gap.toList ∨ token.before.lineFeed = true

namespace Recognizer

open Tokenized

theorem harmless_of_apart {text gap : String} {list : TokenList} {first : Token} {offset : Nat}
    {before : Trivia} (happart : (ofSource text).EndsClosed ∨ first.StandsApart gap)
    (hbefore : '\n' ∈ gap.toList → before.lineFeed = true)
    (hnext : list.get? (ofSource text).tokens.toSource.last = some (behind offset before first))
    (hkind : ((ofSource text).tokens.toSource.lexeme
      ((ofSource text).tokens.toSource.last - 1)).kind ∈ Grammar.EndsIn.typeKinds) :
    Grammar.Harmless (list.toSource.lexeme (ofSource text).tokens.toSource.last) := by
  rw [TokenList.lexeme_toSource _ hnext]
  rcases happart with ⟨last, hlast, hclosed⟩ | ⟨hless, hdot, hcolon, hparen⟩
  · rw [lastToken?, tokens_ofSource, Progress.closed, Array.pop_push] at hlast
    obtain ⟨front, hfront⟩ := Array.back?_eq_some_iff.1 hlast
    have hsize : (progress text).tokens.size - 1 < (progress text).tokens.size := by
      simp [hfront]
    have hlexeme : (progress text).tokens[(progress text).tokens.size - 1] = last := by
      simp [hfront]
    rw [last_ofSource, lexeme_ofSource hsize, hlexeme] at hkind
    change last.kind ∈ Grammar.EndsIn.typeKinds at hkind
    rcases hclosed with hclosed | hclosed
    all_goals
      rw [hclosed] at hkind
      exact absurd hkind (by decide)
  · refine ⟨hless, hdot, hcolon, fun hkind => ?_⟩
    change (before.lineFeed || first.before.lineFeed) = true
    rw [Bool.or_eq_true]
    exact (hparen hkind).imp hbefore id

/-- A scan takes an annotation and the gap behind it, whatever text goes on there. -/
theorem scan_append (settings : Settings) (text gap more : String) (stop : Nat)
    (hscan : (build settings).scan text = .matched ⟨0, text.utf8ByteSize⟩ stop)
    (hne : gap ≠ "") (hgap : ∀ c ∈ gap.toList, c = ' ' ∨ c = '\t' ∨ c = '\n') :
    ∃ first, (ofSource more).firstToken? = some first ∧
      ((ofSource more).tokens.size = 1 → first.span.start = more.utf8ByteSize) ∧
      ((ofSource text).EndsClosed ∨ first.StandsApart gap →
        (build settings).scan (text ++ gap ++ more) = .matched ⟨0, text.utf8ByteSize⟩
          (text.utf8ByteSize + gap.utf8ByteSize + first.span.start)) := by
  obtain ⟨j, hmatch, -⟩ := scan_eq_matched_iff.1 hscan
  obtain ⟨rfl, -⟩ := last_of_matchAt hmatch
  have hall : gap.toList.all Form.isGap = true := by
    refine List.all_eq_true.2 fun c hc => ?_
    rcases hgap c hc with rfl | rfl | rfl <;> rfl
  have hcomplete := complete_of_matchAt hmatch
  have hsize : 0 < (progress more).closed.size := by simp [Progress.closed]
  have hfirst : (ofSource more).tokens.get? 0 = some (progress more).closed[0] := by
    rw [tokens_ofSource, TokenList.get?, Array.getElem?_eq_getElem hsize]
  refine ⟨_, hfirst, fun hone => ?_, fun happart => ?_⟩
  · have hempty : (progress more).tokens = #[] := by
      rw [tokens_ofSource, TokenList.size, Progress.closed, Array.size_push] at hone
      exact Array.eq_empty_of_size_eq_zero (Nat.succ.inj hone)
    simp [Progress.closed, hempty, Span.point, offset_progress]
  · obtain ⟨hcontinues, before, hbefore, hnext⟩ := ofSource_append hcomplete hne hall hfirst
    have hharmless := harmless_of_apart happart hbefore hnext
    refine scan_eq_matched_iff.2 ⟨_, matchAt_prolonged hcontinues hmatch hharmless, ?_⟩
    rw [hnext]
    rfl

/-- A parenthesis on the next line is no part of the annotation. -/
theorem scan_append_nextLine :
    (build {}).scan "@Test" = .matched ⟨0, 5⟩ 5 ∧
      (build {}).scan ("@Test" ++ "\n" ++ "(a") = .matched ⟨0, 5⟩ 6 := by
  have hscan : (build {}).scan "@Test" = .matched ⟨0, "@Test".utf8ByteSize⟩ 5 := by decide +kernel
  have hparen : (ofSource "(a").firstToken? = some ⟨.leftParen, ⟨0, 1⟩, .empty⟩ := by
    decide +kernel
  obtain ⟨first, hfirst, -, happart⟩ :=
    scan_append {} "@Test" "\n" "(a" 5 hscan (by decide) (by simp)
  obtain rfl := Option.some.inj (hfirst.symm.trans hparen)
  have hfeed : '\n' ∈ "\n".toList := by simp
  have hwhole := happart (.inr ⟨by decide, by decide, by decide, fun _ => .inl hfeed⟩)
  exact ⟨hscan, hwhole⟩

end Recognizer
end AnnotationScan
