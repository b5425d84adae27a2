import AnnotationScan.Proofs.Peg.Erasure
import AnnotationScan.Proofs.Peg.Placement
import AnnotationScan.Proofs.Significance

/-!
# Tracing changes no parse

The grammar that is built with traces is the one that is built without them as soon as its traced
parts are taken for what is in them.  So its entries answer alike, and all they add is a log, in which
the entry itself comes last.
-/

namespace AnnotationScan

open Peg

/-- The name under which an entry is traced. -/
def Entry.traceName : Entry → String
  | .plain => "parseAnnotation"
  | .file => "parseFileAnnotation"

namespace Grammar

theorem definitions_untraced (trace : Bool) : (definitions trace).untraced = definitions false := by
  cases trace <;> decide +kernel

theorem plainEntry_untraced (trace : Bool) : (plainEntry trace).untraced = plainEntry false := by
  cases trace <;> decide

theorem fileEntry_untraced (trace : Bool) : (fileEntry trace).untraced = fileEntry false := by
  cases trace <;> decide

end Grammar

namespace Recognizer

theorem rule_untraced (settings : Settings) (entry : Entry) :
    ((build settings).rule entry).untraced =
      (build { settings with traceRules := false }).rule entry := by
  cases entry with
  | plain => exact Grammar.plainEntry_untraced settings.traceRules
  | file => exact Grammar.fileEntry_untraced settings.traceRules

theorem exists_rule_eq_traced {settings : Settings} (htrace : settings.traceRules = true)
    (entry : Entry) : ∃ inner, (build settings).rule entry = .traced entry.traceName inner := by
  cases entry <;>
    simp [rule, build, htrace, Grammar.plainEntry, Grammar.fileEntry, Grammar.named,
      Entry.traceName]

theorem entryParse_untraced (settings : Settings) (entry : Entry) (cursor : Cursor TokenKind)
    (log : Option (List Event)) :
    let traced := (build settings).entryParse entry cursor
    let plain := (build { settings with traceRules := false }).entryParse entry (cursor.withLog log)
    traced.1 = plain.1 ∧ traced.2.withLog none = plain.2.withLog none := by
  have hparse := cursor.forgetFailure.forgetResults.parse_untraced log (build settings).definitions
    ((build settings).rule entry)
  have hdefinitions : (build settings).definitions.untraced =
      (build { settings with traceRules := false }).definitions :=
    Grammar.definitions_untraced settings.traceRules
  rw [rule_untraced, hdefinitions] at hparse
  exact hparse

theorem recognize_untraced (settings : Settings) (entry : Entry) (cursor : Cursor TokenKind)
    (log : Option (List Event)) :
    let traced := (build settings).recognize entry cursor
    let plain := (build { settings with traceRules := false }).recognize entry (cursor.withLog log)
    traced.1 = plain.1 ∧ traced.2.withLog none = plain.2.withLog none := by
  have hparse := entryParse_untraced settings entry cursor log
  rw [recognize_eq, recognize_eq]
  generalize (build settings).entryParse entry cursor = x at hparse ⊢
  generalize (build { settings with traceRules := false }).entryParse entry (cursor.withLog log) = y
    at hparse ⊢
  obtain ⟨o, after⟩ := x
  obtain ⟨p, after'⟩ := y
  obtain ⟨rfl, hafter⟩ := hparse
  refine ⟨?_, hafter⟩
  cases o with
  | failed failure =>
      have hfurthest : (after.withLog none).state.furthest = (after'.withLog none).state.furthest :=
        congrArg (fun cursor : Cursor TokenKind => cursor.state.furthest) hafter
      exact congrArg (fun furthest : Option Failure => Except.error (furthest.getD failure)) hfurthest
  | matched span stop => rfl
  | aborted cause => cases cause <;> rfl

theorem recognize_logged {settings : Settings} (htrace : settings.traceRules = true) (entry : Entry)
    {source : Source TokenKind} {cursor : Cursor TokenKind} (h : cursor.Outermost source)
    {earlier : List Event} (hlog : cursor.state.log = some earlier) :
    let answer := (build settings).recognize entry cursor
    answer.2.drainLog.1.getLast? = some ⟨entry.traceName, 0, cursor.offset,
      answer.1.toOption.map fun _ => answer.2.offset⟩ := by
  obtain ⟨inner, hinner⟩ := exists_rule_eq_traced htrace entry
  have hplaced : cursor.forgetFailure.forgetResults.Placed := by
    obtain ⟨rfl, -, -, hindex⟩ := h
    exact ⟨hindex, .of_memo_empty rfl⟩
  have hlast := hplaced.parse_traced hlog (build settings).definitions entry.traceName inner
  rw [← hinner] at hlast
  change ((build settings).entryParse entry cursor).2.drainLog.1.getLast? =
    some ⟨_, cursor.depth, cursor.offset,
      ((build settings).entryParse entry cursor).1.stop?.map cursor.source.offset⟩ at hlast
  have hindex := (build settings).entryParse_index entry cursor
  have hsource : ((build settings).entryParse entry cursor).2.source = cursor.source := rfl
  rw [recognize_eq]
  generalize (build settings).entryParse entry cursor = x at hlast hindex hsource ⊢
  obtain ⟨o, after⟩ := x
  rw [h.depth_eq] at hlast
  refine hlast.trans ?_
  cases o with
  | matched span stop =>
      have hoffset : after.offset = cursor.source.offset stop := by
        rw [Cursor.offset, hsource, hindex]
        rfl
      exact congrArg (fun offset => some (Event.mk entry.traceName 0 cursor.offset (some offset)))
        hoffset.symm
  | failed failure => rfl
  | aborted cause => cases cause <;> rfl

/-- Tracing changes no parse.  Traced parts may stand anywhere in the rules, events may be recorded or
not: a parse ends as if there were none of them.  So the annotation grammar answers with traces as it
does without, and the log of its entries ends with the entry, matched up to where the cursor stands
if the entry has matched. -/
theorem tracing_transparent :
    (∀ {κ : Type} [DecidableEq κ] [Describe κ] (definitions : Definitions κ) (rule : Rule κ)
      (cursor : Cursor κ) (log : Option (List Event)),
      let parsed := cursor.parse definitions rule
      let erased := (cursor.withLog log).parse definitions.untraced rule.untraced
      parsed.1 = erased.1 ∧ parsed.2.index = erased.2.index ∧ parsed.2.depth = erased.2.depth ∧
        parsed.2.state.furthest = erased.2.state.furthest ∧
        parsed.2.state.memo = erased.2.state.memo) ∧
    (∀ (settings : Settings) (entry : Entry) (cursor : Cursor TokenKind)
      (log : Option (List Event)),
      let traced := (build { settings with traceRules := true }).recognize entry cursor
      let plain := (build { settings with traceRules := false }).recognize entry
        (cursor.withLog log)
      traced.1 = plain.1 ∧ traced.2.index = plain.2.index ∧
        traced.2.state.memo.size = plain.2.state.memo.size ∧
        traced.2.state.furthest = plain.2.state.furthest) ∧
    ∀ (settings : Settings) (entry : Entry) (source : Source TokenKind)
      (cursor : Cursor TokenKind) (earlier : List Event), settings.traceRules = true →
      cursor.Outermost source → cursor.state.log = some earlier →
      let answer := (build settings).recognize entry cursor
      answer.2.drainLog.1.getLast? = some ⟨entry.traceName, 0, cursor.offset,
        answer.1.toOption.map fun _ => answer.2.offset⟩ := by
  refine ⟨?_, ?_, ?_⟩
  · intro κ _ _ definitions rule cursor log parsed erased
    obtain ⟨ho, hcursor⟩ := cursor.parse_untraced log definitions rule
    have hsame {α : Type} (field : Cursor κ → α) :
        field (parsed.2.withLog none) = field (erased.2.withLog none) := congrArg field hcursor
    exact ⟨ho, hsame (·.index), hsame (·.depth), hsame (·.state.furthest), hsame (·.state.memo)⟩
  · intro settings entry cursor log traced plain
    obtain ⟨ho, hcursor⟩ := recognize_untraced { settings with traceRules := true } entry cursor log
    have hsame {α : Type} (field : Cursor TokenKind → α) :
        field (traced.2.withLog none) = field (plain.2.withLog none) := congrArg field hcursor
    exact ⟨ho, hsame (·.index), hsame (·.state.memo.size), hsame (·.state.furthest)⟩
  · intro settings entry source cursor earlier htrace h hlog
    exact recognize_logged htrace entry h hlog

/-- The last one of the events is the annotation, up to the end of its parentheses. -/
theorem tracing_transparent_compact :
    let grammar := build { traceRules := true }
    let answer := grammar.recognize .plain (grammar.cursor compact).logging
    answer.1 = .ok ⟨⟨0, 5⟩, 5⟩ ∧
      answer.2.drainLog.1.getLast? = some ⟨"parseAnnotation", 0, 0, some 5⟩ ∧
      answer.2.state.memo.size =
        ((build {}).recognize .plain ((build {}).cursor compact)).2.state.memo.size := by
  intro grammar answer
  have hok : answer.1 = .ok ⟨⟨0, 5⟩, 5⟩ := by decide +kernel
  have hoffset : answer.2.offset = 5 := by decide +kernel
  have hstart : (grammar.cursor compact).logging.offset = 0 := by decide +kernel
  have hlast := tracing_transparent.2.2 { traceRules := true } .plain compact.toSource
    (grammar.cursor compact).logging [] rfl ⟨rfl, rfl, rfl, Nat.zero_le _⟩ rfl
  have hplain := tracing_transparent.2.1 {} .plain (grammar.cursor compact).logging none
  refine ⟨hok, hlast.trans ?_, hplain.2.2.1⟩
  change some (Event.mk _ 0 _ (answer.1.toOption.map fun _ => answer.2.offset)) = _
  rw [hok, hoffset, hstart]
  rfl

end Recognizer
end AnnotationScan
