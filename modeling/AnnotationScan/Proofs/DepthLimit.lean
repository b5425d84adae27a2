import AnnotationScan.Proofs.Agreement
import AnnotationScan.Scan

/-!
# Less room for nesting

A scan with a lower limit on nesting answers as one with a higher limit, or its parse stopped at the
lower one.  A parse that stopped is told as such unless it stopped at a malformed token: then the
fault of the token takes the place of the limit, although more room might have led the parse around
that token.
-/

namespace AnnotationScan

open Peg

namespace Recognizer

variable {limit limit' : Nat}

def limitedTo (settings : Settings) (limit : Nat) : Recognizer :=
  build { settings with maxDepth := limit }

def answerAt (settings : Settings) (entry : Entry) (tokens : TokenList) (index limit : Nat) :
    Except Failure Recognized :=
  let grammar := limitedTo settings limit
  (grammar.recognize entry ((grammar.cursor tokens).moveTo index)).1

theorem answerAt_limited (settings : Settings) (entry : Entry) (tokens : TokenList) (index : Nat)
    (hle : limit ≤ limit') :
    answerAt settings entry tokens index limit = answerAt settings entry tokens index limit' ∨
      ∃ failure, answerAt settings entry tokens index limit = .error failure ∧
        failure.reason = .depthLimit limit := by
  have h := (limitedTo settings limit).cursor_moveTo_outermost tokens index
  have h' := (limitedTo settings limit').cursor_moveTo_outermost tokens index
  have halike := tokens.toSource.alikeFor_self (limitedTo settings limit).definitions
    ((limitedTo settings limit).rule entry) true h.index_le
  rcases (limitedTo settings limit).recognize_agree entry (.same tokens.toSource)
    (fun f => f.reason = .depthLimit limit) h h' rfl hle (.inl fun _ hf => hf) halike with
    hlimit | hsame
  · exact .inr hlimit
  · exact .inl (Likeness.answer_same hsame)

/-- What is told about a parse that stopped at its limit on nesting: the fault of the token where it
stopped, or the limit if that token is not malformed. -/
def stoppedVerdict (tokenized : Tokenized) (limit : Nat) (failure : Failure) : Verdict :=
  match tokenized.faultBehind? failure with
  | some fault => .malformed fault
  | none => .rejected (.depthLimit limit) failure.offset

theorem verdict_limited (settings : Settings) (entry : Entry) (tokenized : Tokenized)
    (index : Nat) (hle : limit ≤ limit') :
    let answer := answerAt settings entry tokenized.tokens index
    tokenized.verdict (answer limit) = tokenized.verdict (answer limit') ∨
      ∃ failure, answer limit = .error failure ∧ failure.reason = .depthLimit limit ∧
        tokenized.verdict (answer limit) = stoppedVerdict tokenized limit failure := by
  intro answer
  rcases answerAt_limited settings entry tokenized.tokens index hle with hsame |
    ⟨failure, hanswer, hreason⟩
  · exact .inl (congrArg tokenized.verdict hsame)
  · refine .inr ⟨failure, hanswer, hreason, (congrArg tokenized.verdict hanswer).trans ?_⟩
    obtain ⟨reason, place, start⟩ := failure
    obtain rfl : reason = .depthLimit limit := hreason
    rfl

theorem scanFile_limitedTo (settings : Settings) (limit : Nat) (source : String) :
    (limitedTo settings limit).scanFile source =
      let tokenized := Tokenized.ofSource source
      tokenized.verdict (answerAt settings .file tokenized.tokens 0 limit) := by
  rw [scanFile]
  dsimp only [answerAt]
  rw [cursor_moveTo_zero]

/-- With less room for nesting a scan answers as with more, or its parse stopped and the verdict
tells of the limit or of the fault where it stopped. -/
theorem scan_limited (settings : Settings) (hle : limit ≤ limit') (source : String)
    (offset : Nat) :
    let tokenized := Tokenized.ofSource source
    let first := tokenized.tokens.firstAtOrAfter offset
    let less := limitedTo settings limit
    let more := limitedTo settings limit'
    (less.scanAt source offset = more.scanAt source offset ∨
      ∃ failure, answerAt settings .plain tokenized.tokens first limit = .error failure ∧
        failure.reason = .depthLimit limit ∧
        less.scanAt source offset = stoppedVerdict tokenized limit failure) ∧
    (less.scanFile source = more.scanFile source ∨
      ∃ failure, answerAt settings .file tokenized.tokens 0 limit = .error failure ∧
        failure.reason = .depthLimit limit ∧
        less.scanFile source = stoppedVerdict tokenized limit failure) := by
  intro tokenized first less more
  constructor
  · exact verdict_limited settings .plain tokenized first hle
  · change (limitedTo settings limit).scanFile source = (limitedTo settings limit').scanFile source ∨
      ∃ failure, _ ∧ _ ∧ (limitedTo settings limit).scanFile source = _
    rw [scanFile_limitedTo, scanFile_limitedTo]
    exact verdict_limited settings .file tokenized 0 hle

/-- With room for one level the open string is told instead of the limit. -/
theorem scan_limited_openString :
    let source := "@A < \"abc"
    let fault : Fault := ⟨.unterminatedString, ⟨5, 9⟩⟩
    (limitedTo {} 1).scanAt source 0 = .malformed fault ∧
      ∃ failure, failure.reason = .depthLimit 1 ∧
        stoppedVerdict (Tokenized.ofSource source) 1 failure = .malformed fault := by
  intro source fault
  have hless : (limitedTo {} 1).scanAt source 0 = .malformed fault := by decide +kernel
  have hmore : (limitedTo {} 2).scanAt source 0 = .matched ⟨0, 2⟩ 3 := by decide +kernel
  refine ⟨hless, ?_⟩
  rcases (scan_limited {} (show 1 ≤ 2 by decide) source 0).1 with hsame | ⟨failure, -, hreason, hv⟩
  · rw [hless, hmore] at hsame
    cases hsame
  · exact ⟨failure, hreason, hv.symm.trans hless⟩

/-- A limit that is reached at a malformed token is not told. -/
theorem scan_hides_limit :
    ¬∀ (source : String) (offset limit limit' : Nat), 1 ≤ limit → limit ≤ limit' →
      (limitedTo {} limit).scanAt source offset = (limitedTo {} limit').scanAt source offset ∨
        ∃ place, (limitedTo {} limit).scanAt source offset =
          .rejected (.depthLimit limit) place := by
  intro h
  have hless : (limitedTo {} 1).scanAt "@A < \"abc" 0 = .malformed ⟨.unterminatedString, ⟨5, 9⟩⟩ := by
    decide +kernel
  have hmore : (limitedTo {} 2).scanAt "@A < \"abc" 0 = .matched ⟨0, 2⟩ 3 := by decide +kernel
  rcases h "@A < \"abc" 0 1 2 (by decide) (by decide) with hsame | ⟨place, hplace⟩
  · rw [hless, hmore] at hsame
    cases hsame
  · rw [hless] at hplace
    cases hplace

end Recognizer
end AnnotationScan
