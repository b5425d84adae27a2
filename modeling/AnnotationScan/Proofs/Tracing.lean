import AnnotationScan.Proofs.Peg.Counting
import AnnotationScan.Proofs.Significance

/-!
# Traced parses

A trace of the annotation grammar tells of each of its recursive rules how often the body was run.
This is once for each result that is kept: twice for a token at most, since no recursive rule is
called behind a negative lookahead, where failures are not kept.
-/

namespace AnnotationScan

open Peg

namespace Grammar

theorem isTracedAs_body : ∀ nonterminal ∈ Nonterminal.all, ∀ other ∈ Nonterminal.all,
    other ≠ nonterminal → (other.body true).has (Rule.isTracedAs nonterminal.name) = false := by
  decide

theorem isTracedAs_entry (settings : Settings) (entry : Entry) : ∀ nonterminal ∈ Nonterminal.all,
    ((Recognizer.build settings).rule entry).has (Rule.isTracedAs nonterminal.name) = false := by
  apply rule_cases (P := fun rule => ∀ nonterminal ∈ Nonterminal.all,
    rule.has (Rule.isTracedAs nonterminal.name) = false)
  · decide
  · decide

theorem hidesCalls_body (nonterminal : Nonterminal) (trace : Bool) :
    (nonterminal.body trace).has Rule.hidesCalls = false := by
  revert trace
  cases nonterminal <;> decide

theorem hidesCalls_entry (settings : Settings) (entry : Entry) :
    ((Recognizer.build settings).rule entry).has Rule.hidesCalls = false := by
  apply rule_cases (P := fun rule => rule.has Rule.hidesCalls = false)
  · decide
  · decide

/-- All recursive rules but one are traced under their names. -/
theorem tracesAlone {nonterminal : Nonterminal} (h : nonterminal ≠ .parenthesizedUserType) :
    (definitions true).TracesAlone nonterminal.index nonterminal.name where
  body := by
    rw [definitions_body?]
    cases nonterminal with
    | parenthesizedUserType => exact absurd rfl h
    | _ => exact ⟨_, rfl, by decide⟩
  others := by
    intro r body hr hbody
    obtain ⟨other, rfl, rfl⟩ := exists_of_body? hbody
    apply isTracedAs_body nonterminal nonterminal.mem_all other other.mem_all
    rintro rfl
    exact hr rfl

end Grammar

namespace Recognizer

theorem recognize_counts {settings : Settings} (htrace : settings.traceRules = true)
    {entry : Entry} {source : Source TokenKind} {cursor : Cursor TokenKind}
    (h : cursor.Outermost source) (hlog : cursor.state.log = some [])
    {nonterminal : Grammar.Nonterminal} (hne : nonterminal ≠ .parenthesizedUserType)
    (place : Nat → Bool) :
    let grammar := build settings
    let answer := grammar.recognize entry cursor
    let runs := answer.2.drainLog.1.countP fun event =>
      event.rule == nonterminal.name && place event.offset
    (∀ failure, answer.1 = .error failure → ∀ limit, failure.reason ≠ .depthLimit limit) →
      runs = answer.2.state.memo.keys.countP (fun key => key.scope == grammar.definitions.scope &&
        key.rule == nonterminal.index && place (source.offset key.index)) ∧
      runs ≤ 2 * (List.range source.size).countP fun i => place (source.offset i) := by
  intro grammar answer runs hlimit
  have halone : grammar.definitions.TracesAlone nonterminal.index nonterminal.name := by
    change (Grammar.definitions settings.traceRules).TracesAlone _ _
    rw [htrace]
    exact Grammar.tracesAlone hne
  obtain rfl := h.source_eq
  let start := cursor.forgetFailure.forgetResults
  have hindex : start.index ≤ start.source.last := h.index_le
  have hmode : start.mode ∈ Mode.loud := Mode.mem_loud.2 (congrArg Mode.quiet h.mode_eq)
  have hbodies : ∀ r body, grammar.definitions.body? r = some body →
      body.StaysIn start.source grammar.definitions Mode.loud := by
    intro r body hbody
    obtain ⟨callee, -, rfl⟩ := Grammar.exists_of_body? hbody
    exact Rule.staysIn_loud (Grammar.hidesCalls_body callee settings.traceRules)
  exact halone.parse_counts
    (Grammar.isTracedAs_entry settings entry nonterminal nonterminal.mem_all) hindex rfl hlog
    hmode (Rule.staysIn_loud (Grammar.hidesCalls_entry settings entry)) hbodies place
    (isDecided_entryParse h hlimit)

/-- In a parse that is not stopped the traced body of a recursive rule runs once for each result of
the rule that is kept: four times for each token at most, and twice in the annotation grammar. -/
theorem bodies_run_once :
    (∀ {κ : Type} [DecidableEq κ] [Describe κ] (definitions : Definitions κ) (r : Nat)
      (name : String) (rule : Rule κ) (cursor : Cursor κ), definitions.TracesAlone r name →
      rule.has (Rule.isTracedAs name) = false → cursor.index ≤ cursor.source.last →
      cursor.state.memo = ∅ → cursor.state.log = some [] →
      let parsed := cursor.parse definitions rule
      let runs := parsed.2.drainLog.1.countP (·.rule == name)
      parsed.1.isDecided = true →
        runs = parsed.2.state.memo.keys.countP
          (fun key => key.scope == definitions.scope && key.rule == r) ∧
        runs ≤ 4 * cursor.source.size) ∧
    ∀ (settings : Settings) (entry : Entry) (source : Source TokenKind)
      (cursor : Cursor TokenKind) (nonterminal : Grammar.Nonterminal), settings.traceRules = true →
      nonterminal ≠ .parenthesizedUserType → cursor.Outermost source →
      cursor.state.log = some [] →
      let grammar := build settings
      let answer := grammar.recognize entry cursor
      let runs := answer.2.drainLog.1.countP (·.rule == nonterminal.name)
      (∀ failure, answer.1 = .error failure → ∀ limit, failure.reason ≠ .depthLimit limit) →
        runs = answer.2.state.memo.keys.countP
          (fun key => key.scope == grammar.definitions.scope && key.rule == nonterminal.index) ∧
        runs ≤ 2 * source.size ∧
        ∀ offset, answer.2.drainLog.1.countP
            (fun event => event.rule == nonterminal.name && event.offset == offset) ≤
          2 * (List.range source.size).countP fun i => source.offset i == offset := by
  constructor
  · intro κ _ _ definitions r name rule cursor halone hrule hindex hmemo hlog parsed runs hdecided
    have hcounts := halone.parse_counts hrule hindex hmemo hlog cursor.mode.mem_all rule.staysIn_all
      (fun _ body _ => body.staysIn_all) (fun _ => true) hdecided
    simpa [Mode.all] using hcounts
  · intro settings entry source cursor nonterminal htrace hne h hlog grammar answer runs hlimit
    obtain ⟨hruns, hbound⟩ := recognize_counts htrace h hlog hne (fun _ => true) hlimit
    refine ⟨by simpa using hruns, by simpa using hbound, fun offset => ?_⟩
    exact (recognize_counts htrace h hlog hne (· == offset) hlimit).2

def tracedBrackets : Definitions Char where
  scope := 0
  entries := #[⟨"brackets", some (.traced "brackets"
    (.wrapped (.token '(') (.optional (.ref 0)) (.token ')')))⟩]

/-- Brackets are looked for at three tokens of two pairs, and an argument has one expression. -/
theorem bodies_run_once_brackets :
    let cursor := (Cursor.fresh (Source.ofWords "(())") 3 0).logging
    let parsed := cursor.parse tracedBrackets (.ref 0)
    let grammar := build { traceRules := true }
    let answer := grammar.recognize .plain (grammar.cursor compact).logging
    (parsed.1.isDecided = true ∧ parsed.2.drainLog.1.countP (·.rule == "brackets") = 3 ∧
      parsed.2.state.memo.keys.countP (fun key => key.scope == 0 && key.rule == 0) = 3) ∧
    answer.1 = .ok ⟨⟨0, 5⟩, 5⟩ ∧ answer.2.drainLog.1.countP (·.rule == "expression") = 1 ∧
      answer.2.state.memo.keys.countP (fun key => key.scope == 0 && key.rule == 3) = 1 := by
  intro cursor parsed grammar answer
  have halone : tracedBrackets.TracesAlone 0 "brackets" := by
    refine ⟨⟨_, rfl, rfl⟩, fun r body hr hbody => ?_⟩
    cases r with
    | zero => exact absurd rfl hr
    | succ r => cases hbody
  have hdecided : parsed.1.isDecided = true := by decide +kernel
  have hthree : parsed.2.drainLog.1.countP (·.rule == "brackets") = 3 := by decide +kernel
  have hbrackets := bodies_run_once.1 tracedBrackets 0 "brackets" (.ref 0) cursor halone rfl
    (Nat.zero_le _) rfl rfl hdecided
  have hok : answer.1 = .ok ⟨⟨0, 5⟩, 5⟩ := by decide +kernel
  have hone : answer.2.drainLog.1.countP (·.rule == "expression") = 1 := by decide +kernel
  have hexpression := bodies_run_once.2 { traceRules := true } .plain compact.toSource
    (grammar.cursor compact).logging .expression rfl (by decide) ⟨rfl, rfl, rfl, Nat.zero_le _⟩ rfl
    (fun failure herror => nomatch hok.symm.trans herror)
  exact ⟨⟨hdecided, hthree, hbrackets.1.symm.trans hthree⟩, hok, hone,
    hexpression.1.symm.trans hone⟩

end Recognizer
end AnnotationScan
