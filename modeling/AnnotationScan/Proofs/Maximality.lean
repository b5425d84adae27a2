import AnnotationScan.Proofs.Grammar.Decisions
import AnnotationScan.Proofs.Significance

/-!
# A match is maximal

An annotation that ends without a bracket ends in the name of its type, and no further name of the
type and no parenthesis on the line stands behind that.  Arguments on the line of the annotation
that do not match are therefore not cut off: the annotation does not match either.
-/

namespace AnnotationScan

open Peg

/-- A repetition ends where its part does not match or does not move on. -/
theorem Peg.Matches.halts {κ : Type} [Describe κ] {source : Source κ} {definitions : Definitions κ}
    {part : Rule κ} {m : Bool} {i j : Nat} (h : Matches source definitions (.many part) m i j) :
    Refuses source definitions part m j ∨ Matches source definitions part m j j := by
  obtain ⟨d, v, hd⟩ := h
  generalize hrule : Rule.many part = rule at hd
  generalize ho : Outcome.matched v j = o at hd
  induction hd generalizing v with
  | manyNone hpart =>
      cases hrule
      cases ho
      exact .inl ⟨_, _, hpart⟩
  | manyIdle hpart =>
      cases hrule
      cases ho
      exact .inr ⟨_, _, hpart⟩
  | manyMore _ _ _ _ ihrest =>
      cases hrule
      cases ho
      exact ihrest _ rfl rfl
  | _ => cases hrule

namespace Grammar

variable {source : Source TokenKind} {trace m : Bool} {i j k : Nat}

theorem isWord_behind_dot (hsource : source.Marked) (hi : i ≤ source.last)
    (h : Matches source (definitions trace) (userType trace) m i j)
    (hdot : (source.lexeme j).kind = .dot) : (source.lexeme (source.next j)).isWord = false := by
  obtain ⟨k, hfirst, hmany⟩ := matches_pair.1 (matches_named.1 h)
  rcases hmany.halts with hnone | hidle
  · rcases refuses_pair.1 hnone with hsign | ⟨l, hsign, hname⟩
    · exact absurd hdot (refuses_token.1 hsign)
    · obtain ⟨-, rfl⟩ := matches_token.1 hsign
      rcases refuses_pair.1 (refuses_named.1 hname) with hword | ⟨_, _, hmore⟩
      · exact refuses_word.1 hword
      · exact absurd hmore not_refuses_optional
  · -- behind its dot a further part does not end where it started
    obtain ⟨l, hsign, hname⟩ := matches_pair.1 hidle
    obtain ⟨-, rfl⟩ := matches_token.1 hsign
    have hback := (hname.bounds (source.next_le_last j)).1
    have hon := hsource.lt_next (h.bounds hi).2 (by rw [hdot]; nofun)
    omega

theorem closing_of_wrapped (hsource : source.Marked)
    {opening closing : TokenKind} {count : Bool} {part : TokenRule}
    (hclosing : closing ≠ .endOfInput)
    (h : Matches source (definitions trace)
      (Rule.wrapped (.token opening) (.newlines count part) (.token closing)) m i j) :
    (source.lexeme (j - 1)).kind = closing := by
  obtain ⟨-, k, hpart, hkind, rfl⟩ := matches_wrapped.1 h
  have hk := (hpart.bounds (source.next_le_last i)).2
  have hlt := hsource.lt_last hk (by rw [hkind]; exact hclosing)
  rw [Source.next_of_lt hlt, Nat.add_sub_cancel]
  exact hkind

/-- What stands behind the at sign ends with arguments, or with a type behind which no parenthesis
stands on the line. -/
theorem annotationUnescaped_ends (hsource : source.Marked)
    (h : Matches source (definitions trace) (annotationUnescaped trace) m i j) :
    (source.lexeme (j - 1)).kind = .rightParen ∨
      Matches source (definitions trace) (userType trace) m i j ∧
        ((source.lexeme j).kind = .leftParen → (source.lexeme j).newlineBefore = true) := by
  rcases matches_orElse.1 (matches_named.1 h) with hinvocation | ⟨-, htype⟩
  · obtain ⟨k, htype, harguments⟩ := matches_pair.1 (matches_named.1 hinvocation)
    have hparens := matches_named.1 (matches_onSameLine.1 harguments).2
    exact .inl (closing_of_wrapped hsource nofun hparens)
  · obtain ⟨k, htype, hnone⟩ := matches_pair.1 htype
    obtain ⟨hnone, rfl⟩ := matches_notAhead.1 hnone
    refine .inr ⟨htype, fun hparen => ?_⟩
    rcases refuses_onSameLine.1 hnone with hline | hother
    · exact (Bool.and_eq_true_iff.1 hline).2
    · exact absurd hparen (refuses_token.1 hother)

theorem arguments_of_annotationUnescaped (hi : i ≤ source.last)
    (htype : Matches source (definitions trace) (userType trace) m i j)
    (hparen : (source.lexeme j).kind = .leftParen) (hline : (source.lexeme j).newlineBefore = false)
    (h : Matches source (definitions trace) (annotationUnescaped trace) m i k) :
    Matches source (definitions trace) (valueArguments trace) m j k := by
  rcases matches_orElse.1 (matches_named.1 h) with hinvocation | ⟨-, hplain⟩
  · obtain ⟨l, htype', harguments⟩ := matches_pair.1 (matches_named.1 hinvocation)
    obtain rfl := htype.unique htype' hi
    exact (matches_onSameLine.1 harguments).2
  · obtain ⟨l, htype', hnone⟩ := matches_pair.1 hplain
    obtain rfl := htype.unique htype' hi
    have hsame : (m && (source.lexeme j).newlineBefore) = false := by rw [hline, Bool.and_false]
    rcases refuses_onSameLine.1 (matches_notAhead.1 hnone).1 with hother | hother
    · exact absurd (hother.symm.trans hsame) nofun
    · exact absurd hparen (refuses_token.1 hother)

def head (trace : Bool) : Entry → TokenRule
  | .plain => Rule.seq [.token .atSign, .optional targetPrefix, userType trace]
  | .file => Rule.seq [.token .atSign, .keyword "file", .token .colon, userType trace]

/-- What an annotation starts with, in front of its type or of a list in brackets. -/
def front : Entry → TokenRule
  | .plain => Rule.seq [.token .atSign, .optional targetPrefix]
  | .file => Rule.seq [.token .atSign, .keyword "file", .token .colon]

theorem front_of_head {entry : Entry}
    (h : Matches source (definitions trace) (head trace entry) m i j) :
    ∃ l, Matches source (definitions trace) (front entry) m i l ∧
      Matches source (definitions trace) (userType trace) m l j := by
  cases entry with
  | plain =>
      obtain ⟨k, hat, hrest⟩ := matches_andThen.1 h
      obtain ⟨l, htarget, htype⟩ := matches_pair.1 hrest
      exact ⟨l, matches_pair.2 ⟨k, hat, htarget⟩, htype⟩
  | file =>
      obtain ⟨k, hat, hrest⟩ := matches_andThen.1 h
      obtain ⟨n, hfile, hrest⟩ := matches_andThen.1 hrest
      obtain ⟨l, hcolon, htype⟩ := matches_pair.1 hrest
      exact ⟨l, matches_andThen.2 ⟨k, hat, matches_pair.2 ⟨n, hfile, hcolon⟩⟩, htype⟩

theorem front_of_entry {settings : Settings} {entry : Entry}
    (h : Matches source (definitions settings.traceRules) ((Recognizer.build settings).rule entry)
      m i j) :
    ∃ l, Matches source (definitions settings.traceRules) (front entry) m i l ∧
      (Matches source (definitions settings.traceRules)
          (annotationUnescaped settings.traceRules) m l j ∨
        Matches source (definitions settings.traceRules)
          (annotationList settings.traceRules) m l j) := by
  cases entry with
  | plain =>
      rcases matches_orElse.1 (matches_named.1 h) with hsingle | ⟨-, hmulti⟩
      · -- whether there is a target is decided by two alternatives
        obtain ⟨k, hat, hform⟩ := matches_pair.1 (matches_named.1 hsingle)
        rcases matches_orElse.1 hform with hform | ⟨-, hform⟩
        · obtain ⟨l, htarget, hmatch⟩ := matches_pair.1 hform
          exact ⟨l, matches_pair.2 ⟨k, hat, matches_optional.2 (.inl htarget)⟩, .inl hmatch⟩
        · obtain ⟨l, hnone, hmatch⟩ := matches_pair.1 hform
          have hnone := matches_optional.2 (.inr (matches_notAhead.1 hnone))
          exact ⟨l, matches_pair.2 ⟨k, hat, hnone⟩, .inl hmatch⟩
      · obtain ⟨k, hat, hform⟩ := matches_andThen.1 (matches_named.1 hmulti)
        obtain ⟨l, htarget, hmatch⟩ := matches_pair.1 hform
        exact ⟨l, matches_pair.2 ⟨k, hat, htarget⟩, .inr hmatch⟩
  | file =>
      obtain ⟨k, hat, hrest⟩ := matches_andThen.1 (matches_named.1 h)
      obtain ⟨n, hfile, hrest⟩ := matches_andThen.1 hrest
      obtain ⟨l, hcolon, hform⟩ := matches_pair.1 hrest
      refine ⟨l, matches_andThen.2 ⟨k, hat, matches_pair.2 ⟨n, hfile, hcolon⟩⟩, ?_⟩
      rcases matches_orElse.1 hform with hmatch | ⟨-, hmatch⟩
      · exact .inl hmatch
      · exact .inr hmatch

/-- An annotation may end in front of the token `j`: with a closing bracket, or with a type behind
which no parenthesis stands on the line. -/
def MayEnd (source : Source TokenKind) (trace : Bool) (j : Nat) : Prop :=
  (source.lexeme (j - 1)).kind ∈ [TokenKind.rightParen, .rightBracket] ∨
    ∃ i ≤ source.last, Matches source (definitions trace) (userType trace) true i j ∧
      ((source.lexeme j).kind = .leftParen → (source.lexeme j).newlineBefore = true)

theorem mayEnd_entry (hsource : source.Marked) (hi : i ≤ source.last) {settings : Settings}
    {entry : Entry} (h : Matches source (definitions settings.traceRules)
      ((Recognizer.build settings).rule entry) true i j) : MayEnd source settings.traceRules j := by
  obtain ⟨k, hfront, hunescaped | hlist⟩ := front_of_entry h
  · rcases annotationUnescaped_ends hsource hunescaped with hclosing | htype
    · exact .inl (by simp [hclosing])
    · exact .inr ⟨k, (hfront.bounds hi).2, htype⟩
  · have hclosing : (source.lexeme (j - 1)).kind = .rightBracket :=
      closing_of_wrapped hsource nofun hlist
    exact .inl (by simp [hclosing])

theorem arguments_of_entry (hsource : source.Marked) (hi : i ≤ source.last) {settings : Settings}
    {entry : Entry}
    (hhead : Matches source (definitions settings.traceRules) (head settings.traceRules entry)
      true i j)
    (hparen : (source.lexeme j).kind = .leftParen) (hline : (source.lexeme j).newlineBefore = false)
    (h : Matches source (definitions settings.traceRules)
      ((Recognizer.build settings).rule entry) true i k) :
    Matches source (definitions settings.traceRules) (valueArguments settings.traceRules)
      true j k := by
  obtain ⟨l, hfront, htype⟩ := front_of_head hhead
  obtain ⟨l', hfront', hform⟩ := front_of_entry h
  obtain rfl := hfront.unique hfront' hi
  have hl := (hfront.bounds hi).2
  rcases hform with hunescaped | hlist
  · exact arguments_of_annotationUnescaped hl htype hparen hline hunescaped
  · -- a list starts with a bracket where the name of the type starts
    obtain ⟨n, hname, -⟩ := matches_pair.1 (matches_named.1 htype)
    obtain ⟨n, hword, -⟩ := matches_pair.1 (matches_named.1 hname)
    have hbracket := (matches_wrapped.1 hlist).1
    rw [hsource.word l (matches_word.1 hword).1] at hbracket
    cases hbracket

end Grammar

namespace Recognizer

/-- An annotation that ends without a bracket is as long as its name, and with a parenthesis on the
line of its name it does not match without arguments. -/
theorem recognized_maximal (settings : Settings) (entry : Entry) (tokens : TokenList)
    (hend : ∃ stop, tokens.tokens.back? = some stop ∧ stop.kind = .endOfInput)
    (cursor : Cursor TokenKind) (h : cursor.Outermost tokens.toSource) :
    let grammar := build settings
    let source := tokens.toSource
    let answer := (grammar.recognize entry cursor).1
    (∀ recognized, answer = .ok recognized →
      (∀ last, tokens.get? (recognized.stop - 1) = some last →
        last.kind ≠ .rightParen ∧ last.kind ≠ .rightBracket) →
      ∀ next, tokens.get? recognized.stop = some next →
        (next.kind = .leftParen → next.before.lineFeed = true) ∧
        (next.kind = .dot →
          ∃ behind, tokens.get? (recognized.stop + 1) = some behind ∧ behind.kind ≠ .identifier)) ∧
    ∀ stop next, Matches source grammar.definitions (Grammar.head settings.traceRules entry) true
        cursor.index stop →
      tokens.get? stop = some next → next.kind = .leftParen → next.before.lineFeed = false →
      (∀ behind, ¬Matches source grammar.definitions (Grammar.valueArguments settings.traceRules)
        true stop behind) →
      ∃ failure, answer = .error failure := by
  intro grammar source answer
  obtain ⟨mark, hback, hkind⟩ := hend
  have hsource := TokenList.marked_of_back? hback hkind
  have hsize := TokenList.size_pos_of_back? hback
  have hmatches : ∀ recognized, answer = .ok recognized → Matches source
      (Grammar.definitions settings.traceRules) (grammar.rule entry) true cursor.index
      recognized.stop := fun recognized hok => by
    obtain ⟨d, hd⟩ := derives_of_recognize h hok
    exact ⟨_, _, hd⟩
  constructor
  · intro recognized hok hopen next hnext
    have hstop := ((hmatches recognized hok).bounds h.index_le).2
    rcases Grammar.mayEnd_entry hsource h.index_le (hmatches recognized hok) with
      hclosing | ⟨k, hk, htype, hparen⟩
    · obtain ⟨last, hlast⟩ :=
        TokenList.get?_of_le_last hsize (Nat.le_trans (Nat.sub_le recognized.stop 1) hstop)
      rw [TokenList.lexeme_toSource _ hlast] at hclosing
      obtain ⟨hother, hother'⟩ := hopen last hlast
      have hclosed : last.kind ∈ [TokenKind.rightParen, .rightBracket] := hclosing
      simp [hother, hother'] at hclosed
    · have hword := Grammar.isWord_behind_dot hsource hk htype
      rw [TokenList.lexeme_toSource _ hnext] at hparen hword
      refine ⟨hparen, fun hdot => ?_⟩
      have hlt := hsource.lt_last hstop
        (by rw [TokenList.lexeme_toSource _ hnext]; exact ne_of_eq_of_ne hdot nofun)
      obtain ⟨behind, hbehind⟩ := TokenList.get?_of_le_last hsize (Nat.succ_le_of_lt hlt)
      have hnone := hword hdot
      rw [Source.next_of_lt hlt, TokenList.lexeme_toSource _ hbehind] at hnone
      exact ⟨behind, hbehind, beq_eq_false_iff_ne.1 hnone⟩
  · intro stop next hhead hnext hparen hline hnone
    have hlexeme := TokenList.lexeme_toSource _ hnext
    cases hanswer : answer with
    | error failure => exact ⟨failure, rfl⟩
    | ok recognized =>
        have harguments := Grammar.arguments_of_entry hsource h.index_le hhead
          (by rw [hlexeme]; exact hparen) (by rw [hlexeme]; exact hline)
          (hmatches recognized hanswer)
        exact absurd harguments (hnone recognized.stop)

/-- The tokens of a name and of two numbers in parentheses, with something in front of the first
parenthesis. -/
def numbersBehindName (before : Trivia) : TokenList :=
  ⟨"@A\n(1 2)", #[⟨.atSign, ⟨0, 1⟩, .empty⟩, ⟨.identifier, ⟨1, 2⟩, .empty⟩,
    ⟨.leftParen, ⟨3, 4⟩, before⟩, ⟨.integerLiteral, ⟨4, 5⟩, .empty⟩,
    ⟨.integerLiteral, ⟨6, 7⟩, { blank := true }⟩, ⟨.rightParen, ⟨7, 8⟩, .empty⟩,
    ⟨.endOfInput, ⟨8, 8⟩, .empty⟩]⟩

/-- Numbers without a comma between them are no arguments.  An annotation ends in front of them only
if they are on a line of their own. -/
theorem recognized_maximal_numbersBehindName :
    let grammar := build {}
    let answer (tokens : TokenList) := (grammar.recognize .plain (grammar.cursor tokens)).1
    (answer (numbersBehindName { lineFeed := true }) = .ok ⟨⟨0, 2⟩, 2⟩ ∧
      ∀ next, (numbersBehindName { lineFeed := true }).get? 2 = some next →
        next.kind = .leftParen → next.before.lineFeed = true) ∧
    ∃ failure, answer (numbersBehindName .empty) = .error failure := by
  intro grammar answer
  have hmaximal (before : Trivia) := recognized_maximal {} .plain (numbersBehindName before)
    ⟨_, rfl, rfl⟩ (grammar.cursor (numbersBehindName before)) (cursor_outermost grammar _)
  constructor
  · have hok : answer (numbersBehindName { lineFeed := true }) = .ok ⟨⟨0, 2⟩, 2⟩ := by
      decide +kernel
    have hopen : ∀ last, (numbersBehindName { lineFeed := true }).get? 1 = some last →
        last.kind ≠ .rightParen ∧ last.kind ≠ .rightBracket := by
      rintro last ⟨⟩
      decide
    refine ⟨hok, fun next hnext => ?_⟩
    exact ((hmaximal { lineFeed := true }).1 ⟨⟨0, 2⟩, 2⟩ hok hopen next hnext).1
  · let tokens := numbersBehindName .empty
    have hrest (index : Nat) := (cursor_moveTo_outermost grammar tokens index).forget
      grammar.definitions
    have hhead := (hrest 0).parse_explained (Grammar.head false .plain)
    rw [show (Cursor.parse _ grammar.definitions (Grammar.head false .plain)).1 =
      .matched ⟨0, 2⟩ 2 by decide +kernel] at hhead
    have harguments := (hrest 2).parse_explained (Grammar.valueArguments false)
    rw [show (Cursor.parse _ grammar.definitions (Grammar.valueArguments false)).1 =
      .failed ⟨.expected "`)`", 4, 6⟩ by decide +kernel] at harguments
    obtain ⟨d, hd⟩ := hhead
    obtain ⟨e, he⟩ := harguments
    have hlast : tokens.toSource.last = 6 := by decide +kernel
    have hindex : ((grammar.cursor tokens).moveTo 2).index = 2 := by decide +kernel
    refine (hmaximal .empty).2 2 _ ⟨d, _, hd⟩ rfl rfl rfl fun behind hmatch => ?_
    exact hmatch.not_refuses (hlast ▸ by decide) ⟨e, _, hindex ▸ he⟩

end Recognizer
end AnnotationScan
