import AnnotationScan.Proofs.CommandLine.Configuration
import AnnotationScan.Proofs.Exactness
import AnnotationScan.Proofs.Grammar.Messages
import AnnotationScan.Proofs.Preambles

/-!
# What is printed and returned

The exit code tells what came of a command, and so does the output.  What is printed of an
annotation is never empty, since the span of an annotation is a slice of the text.
-/

namespace AnnotationScan

open Peg

/-- The span is a part of the text which starts with an at sign, and it ends at `stop` or before. -/
structure IsExcerpt (source : String) (stop : Nat) (span : Span) : Prop where
  slice : ∃ rest, Text.slice? source span.start span.stop = some ("@" ++ rest)
  stop_le : span.stop ≤ stop

namespace Recognizer

variable {settings : Settings} {source : String} {cursor : Cursor TokenKind}

theorem offset_cursor (h : cursor.Outermost (Tokenized.ofSource source).tokens.toSource)
    {token : Token} (htoken : (Tokenized.ofSource source).tokens.get? cursor.index = some token) :
    cursor.offset = token.span.start := by
  rw [Cursor.offset, h.source_eq, Source.offset, TokenList.lexeme_toSource _ htoken]
  rfl

theorem offset_le_size (h : cursor.Outermost (Tokenized.ofSource source).tokens.toSource) :
    cursor.offset ≤ source.utf8ByteSize := by
  have hsize : 0 < (Tokenized.ofSource source).tokens.size := by
    rw [Tokenized.size_ofSource]
    exact Nat.succ_pos _
  obtain ⟨token, htoken⟩ := TokenList.get?_of_le_last hsize h.index_le
  rw [offset_cursor h htoken]
  exact Tokenized.start_le_size htoken

/-- What is recognized is printed as a part of the text, and it ends where the next token starts, or
before. -/
theorem excerpt_of_recognize {entry : Entry}
    (h : cursor.Outermost (Tokenized.ofSource source).tokens.toSource) {recognized : Recognized}
    (hok : ((build settings).recognize entry cursor).1 = .ok recognized) :
    ∃ behind, (Tokenized.ofSource source).tokens.get? recognized.stop = some behind ∧
      cursor.offset ≤ behind.span.start ∧ IsExcerpt source behind.span.start recognized.span := by
  obtain ⟨hlt, sign, last, behind, hsign, hkind, hlast, hlastKind, hbehind, hspan⟩ :=
    tokens_of_recognize h hok
  have hle : cursor.index ≤ recognized.stop - 1 := Nat.le_sub_one_of_lt hlt
  have hends := Tokenized.stop_le_stop hle hsign hlast hlastKind
  refine ⟨behind, hbehind, ?_, ?_⟩
  · rw [offset_cursor h hsign]
    exact Nat.le_of_lt (Tokenized.start_lt hlt hsign hbehind)
  · rw [hspan]
    exact ⟨Tokenized.slice_of_atSign hkind hsign hlast hends,
      Tokenized.stop_le_start (by omega) hlast hbehind⟩

theorem excerpt_of_scanAt {offset stop : Nat} {span : Span}
    (h : (build settings).scanAt source offset = .matched span stop) :
    IsExcerpt source stop span ∧ stop ≤ source.utf8ByteSize := by
  obtain ⟨next, hok, hstop⟩ := recognizeAt_of_scanAt h
  obtain ⟨behind, hbehind, -, hexcerpt⟩ :=
    excerpt_of_recognize ((build settings).cursor_moveTo_outermost _ _) hok
  obtain rfl : stop = behind.span.start := by rw [hstop, hbehind, Option.elim_some]
  exact ⟨hexcerpt, Tokenized.start_le_size hbehind⟩

theorem excerpts_of_preambleFrom {rounds : Nat} {found : Array Span} {preamble : Preamble}
    (h : cursor.Outermost (Tokenized.ofSource source).tokens.toSource)
    (hfound : ∀ span ∈ found, IsExcerpt source cursor.offset span)
    (hok : (build settings).preambleFrom (Tokenized.ofSource source) rounds cursor found =
      .ok preamble) :
    (∀ span ∈ preamble.annotations, IsExcerpt source preamble.bodyOffset span) ∧
      preamble.bodyOffset ≤ source.utf8ByteSize := by
  induction rounds generalizing cursor found with
  | zero =>
      obtain rfl := Except.ok.inj hok
      exact ⟨hfound, offset_le_size h⟩
  | succ rounds ih =>
      cases hanswer : ((build settings).recognize .file cursor).1 with
      | ok recognized =>
          rw [preambleFrom_of_ok hanswer] at hok
          have hafter := (build settings).recognize_outermost .file h
          obtain ⟨behind, hbehind, hle, hexcerpt⟩ := excerpt_of_recognize h hanswer
          rw [← index_recognize hanswer] at hbehind
          have hoffset := offset_cursor hafter hbehind
          refine ih hafter (fun span hmem => ?_) hok
          rw [hoffset]
          rcases Array.mem_push.1 hmem with hmem | rfl
          · exact ⟨(hfound span hmem).slice, Nat.le_trans (hfound span hmem).stop_le hle⟩
          · exact hexcerpt
      | error failure =>
          rw [preambleFrom_of_error hanswer] at hok
          cases hfault : faultBehindFirst? (Tokenized.ofSource source) cursor.index failure with
          | some fault =>
              rw [hfault] at hok
              cases hok
          | none =>
              rw [hfault] at hok
              obtain rfl := Except.ok.inj hok
              exact ⟨hfound, offset_le_size h⟩

theorem isLine_of_rejected {offset place : Nat} {reason : Reason}
    (h : (build settings).scanAt source offset = .rejected reason place) :
    IsLine reason.message := by
  rw [scanAt] at h
  cases hanswer : (build settings).recognizeAt (Tokenized.ofSource source).tokens
      ((Tokenized.ofSource source).tokens.firstAtOrAfter offset) with
  | ok recognized =>
      rw [hanswer] at h
      cases h
  | error failure =>
      rw [hanswer, Tokenized.verdict] at h
      split at h
      · cases h
      · obtain ⟨rfl, -⟩ := Verdict.rejected.inj h
        exact isLine_of_recognize ((build settings).cursor_moveTo_outermost _ _) hanswer

end Recognizer

namespace CommandLine

inductive Finding where
  /-- Annotations, and where what follows them starts. -/
  | listed (spans : List Span) (stop : Nat)
  | rejected (reason : Reason) (offset : Nat)
  | fault (fault : Fault)

def Command.finding (settings : Settings) (source : String) : Command → Finding
  | .scan _ offset =>
    match (Recognizer.build settings).scanAt source offset with
    | .matched span stop => .listed [span] stop
    | .rejected reason place => .rejected reason place
    | .malformed fault => .fault fault
  | .preamble _ =>
    match (Recognizer.build settings).preamble source with
    | .ok start => .listed start.annotations.toList start.bodyOffset
    | .error fault => .fault fault

def Command.lastLine (stop : Nat) : Command → String
  | .scan _ _ => s!"end {stop}\n"
  | .preamble _ => s!"body {stop}\n"

/-- Nothing was read, or no text. -/
def Unreadable (contents : Except ReadError ByteArray) : Prop :=
  (∃ error, contents = .error error) ∨
    ∃ bytes, contents = .ok bytes ∧ String.fromUTF8? bytes = none

/-- The settings are valid, and this is what the command finds in the text that was read. -/
def Invocation.Finds (invocation : Invocation) (environment : String → Option String)
    (contents : Except ReadError ByteArray) (source : String) (finding : Finding) : Prop :=
  ∃ settings, invocation.settings environment = .ok settings ∧
    (∃ bytes, contents = .ok bytes ∧ String.fromUTF8? bytes = some source) ∧
    invocation.command.finding settings source = finding

/-- The report on what a command finds in a text, or the error that it is. -/
def Finding.answer (command : Command) (source : String) : Finding → Except Error Report
  | .listed spans stop =>
    .ok { code := 0
          output := String.join (spans.map (annotationLine source)) ++ command.lastLine stop }
  | .rejected reason offset =>
    .ok { code := 1, output := s!"rejected at {offset}: {reason.message}\n" }
  | .fault found => .error (.malformed command.file found)

def Report.ofAnswer : Except Error Report → Report
  | .ok report => report
  | .error error => error.report

theorem foldl_annotationLine (source : String) (spans : Array Span) :
    spans.foldl (fun printed span => printed ++ annotationLine source span) "" =
      String.join (spans.toList.map (annotationLine source)) := by
  rw [String.join, List.foldl_map, Array.foldl_toList]

namespace Invocation

variable {invocation : Invocation} {environment : String → Option String}
  {contents : Except ReadError ByteArray} {settings : Settings} {source : String}

theorem perform_eq (hsettings : invocation.settings environment = .ok settings)
    (contents : Except ReadError ByteArray) :
    invocation.perform environment contents =
      match contents.map String.fromUTF8? with
      | .error error => .error (.unreadable invocation.command.file error)
      | .ok none => .error (.unreadable invocation.command.file .notText)
      | .ok (some source) =>
        (invocation.command.finding settings source).answer invocation.command source := by
  cases contents with
  | error error =>
      rw [perform, hsettings]
      rfl
  | ok bytes =>
      cases hsource : String.fromUTF8? bytes with
      | none =>
          simp only [perform, hsettings, Except.mapError, Except.map, bind, Except.bind, hsource]
          rfl
      | some source =>
          simp only [perform, hsettings, Except.mapError, Except.map, bind, Except.bind, hsource]
          cases invocation.command with
          | scan file offset =>
              dsimp only [Command.finding]
              cases (Recognizer.build settings).scanAt source offset with
              | matched span stop => simp [reportVerdict, Finding.answer, Command.lastLine]
              | rejected reason place => rfl
              | malformed fault => rfl
          | preamble file =>
              dsimp only [Command.finding]
              cases (Recognizer.build settings).preamble source with
              | error fault => rfl
              | ok start =>
                  have hlines := foldl_annotationLine source start.annotations
                  simp only [reportPreamble, hlines]
                  rfl

theorem report_of_unreadable (hsettings : invocation.settings environment = .ok settings)
    (h : Unreadable contents) :
    ∃ error : Error, invocation.report environment contents = error.report := by
  rw [report, perform_eq hsettings]
  rcases h with ⟨error, rfl⟩ | ⟨bytes, rfl, hbytes⟩
  · exact ⟨.unreadable _ error, rfl⟩
  · rw [Except.map, hbytes]
    exact ⟨.unreadable _ .notText, rfl⟩

namespace Finds

variable {finding : Finding}

theorem configured (h : invocation.Finds environment contents source finding) :
    ¬invocation.Misconfigured environment := by
  obtain ⟨settings, hsettings, -⟩ := h
  intro hmis
  obtain ⟨error, herror⟩ := settings_of_misconfigured hmis
  cases herror.symm.trans hsettings

theorem readable (h : invocation.Finds environment contents source finding) :
    ¬Unreadable contents := by
  obtain ⟨settings, -, ⟨bytes, hbytes, htext⟩, -⟩ := h
  rintro (⟨error, herror⟩ | ⟨bytes', hbytes', hnone⟩)
  · cases herror.symm.trans hbytes
  · obtain rfl := Except.ok.inj (hbytes.symm.trans hbytes')
    cases hnone.symm.trans htext

theorem report_eq (h : invocation.Finds environment contents source finding) :
    invocation.report environment contents =
      .ofAnswer (finding.answer invocation.command source) := by
  obtain ⟨settings, hsettings, ⟨bytes, rfl, htext⟩, rfl⟩ := h
  have hanswer : invocation.perform environment (.ok bytes) =
      (invocation.command.finding settings source).answer invocation.command source := by
    simp only [perform_eq hsettings, Except.map, htext]
  exact congrArg Report.ofAnswer hanswer

theorem unique (h : invocation.Finds environment contents source finding) {source' : String}
    {finding' : Finding} (h' : invocation.Finds environment contents source' finding') :
    finding = finding' := by
  obtain ⟨settings, hsettings, ⟨bytes, hbytes, htext⟩, rfl⟩ := h
  obtain ⟨settings', hsettings', ⟨bytes', hbytes', htext'⟩, rfl⟩ := h'
  obtain rfl := Except.ok.inj (hsettings.symm.trans hsettings')
  obtain rfl := Except.ok.inj (hbytes.symm.trans hbytes')
  obtain rfl := Option.some.inj (htext.symm.trans htext')
  rfl

theorem excerpts {spans : List Span} {stop : Nat}
    (h : invocation.Finds environment contents source (.listed spans stop)) :
    stop ≤ source.utf8ByteSize ∧ ∀ span ∈ spans, IsExcerpt source stop span := by
  obtain ⟨settings, -, -, hfinding⟩ := h
  unfold Command.finding at hfinding
  split at hfinding
  · split at hfinding
    case h_1 hscan =>
      obtain ⟨rfl, rfl⟩ := Finding.listed.inj hfinding
      obtain ⟨hexcerpt, hsize⟩ := Recognizer.excerpt_of_scanAt hscan
      exact ⟨hsize, fun span hmem => List.mem_singleton.1 hmem ▸ hexcerpt⟩
    all_goals cases hfinding
  · split at hfinding
    case h_1 hpreamble =>
      obtain ⟨rfl, rfl⟩ := Finding.listed.inj hfinding
      obtain ⟨hexcerpts, hsize⟩ := Recognizer.excerpts_of_preambleFrom
        (Recognizer.cursor_outermost _ _) (fun _ hmem => absurd hmem (Array.not_mem_empty _))
        hpreamble
      exact ⟨hsize, fun span hmem => hexcerpts span (Array.mem_toList_iff.1 hmem)⟩
    case h_2 => cases hfinding

theorem isLine {reason : Reason} {place : Nat}
    (h : invocation.Finds environment contents source (.rejected reason place)) :
    IsLine reason.message := by
  obtain ⟨settings, -, -, hfinding⟩ := h
  unfold Command.finding at hfinding
  split at hfinding
  · split at hfinding
    case h_2 hscan =>
      obtain ⟨rfl, rfl⟩ := Finding.rejected.inj hfinding
      exact Recognizer.isLine_of_rejected hscan
    all_goals cases hfinding
  · split at hfinding <;> cases hfinding

end Finds

theorem exists_finds (hconfigured : ¬invocation.Misconfigured environment)
    (hreadable : ¬Unreadable contents) :
    ∃ source finding, invocation.Finds environment contents source finding := by
  cases contents with
  | error error => exact absurd (.inl ⟨error, rfl⟩) hreadable
  | ok bytes =>
      cases hsource : String.fromUTF8? bytes with
      | none => exact absurd (.inr ⟨bytes, rfl, hsource⟩) hreadable
      | some source =>
          exact ⟨source, _, _, settings_of_configured hconfigured, ⟨bytes, rfl, hsource⟩, rfl⟩

theorem report_of_failure (h : invocation.Misconfigured environment ∨ Unreadable contents) :
    ∃ error : Error, invocation.report environment contents = error.report := by
  by_cases hmis : invocation.Misconfigured environment
  · exact report_of_misconfigured hmis contents
  · exact report_of_unreadable (settings_of_configured hmis) (h.resolve_left hmis)

/-- An invocation fails with an error, or it reports what its command finds. -/
theorem failure_or_finds (invocation : Invocation) (environment : String → Option String)
    (contents : Except ReadError ByteArray) :
    (invocation.Misconfigured environment ∨ Unreadable contents) ∨
      ∃ source finding, invocation.Finds environment contents source finding := by
  by_cases hmis : invocation.Misconfigured environment
  · exact .inl (.inl hmis)
  · by_cases hunreadable : Unreadable contents
    · exact .inl (.inr hunreadable)
    · exact .inr (exists_finds hmis hunreadable)

theorem code_eq_two_iff : (invocation.report environment contents).code = 2 ∧
      (invocation.report environment contents).output = "" ↔
    invocation.Misconfigured environment ∨ Unreadable contents ∨
      ∃ source fault, invocation.Finds environment contents source (.fault fault) := by
  constructor
  · rintro ⟨hcode, -⟩
    rcases failure_or_finds invocation environment contents with hfail | ⟨source, finding, hfinds⟩
    · exact or_assoc.1 (.inl hfail)
    · rw [hfinds.report_eq] at hcode
      cases finding with
      | fault fault => exact .inr (.inr ⟨source, fault, hfinds⟩)
      | listed spans stop => cases hcode
      | rejected reason place => cases hcode
  · rw [← or_assoc]
    rintro (hfail | ⟨source, fault, hfinds⟩)
    · obtain ⟨error, herror⟩ := report_of_failure hfail
      rw [herror]
      exact ⟨rfl, rfl⟩
    · rw [hfinds.report_eq]
      exact ⟨rfl, rfl⟩

theorem code_eq_one_iff : (invocation.report environment contents).code = 1 ↔
    ∃ source reason place,
      invocation.Finds environment contents source (.rejected reason place) := by
  constructor
  · intro hcode
    rcases failure_or_finds invocation environment contents with hfail | ⟨source, finding, hfinds⟩
    · obtain ⟨error, herror⟩ := report_of_failure hfail
      rw [herror] at hcode
      cases hcode
    · rw [hfinds.report_eq] at hcode
      cases finding with
      | rejected reason place => exact ⟨source, reason, place, hfinds⟩
      | listed spans stop => cases hcode
      | fault fault => cases hcode
  · rintro ⟨source, reason, place, hfinds⟩
    rw [hfinds.report_eq]
    rfl

/-- The exit code and the output tell what came of an invocation: an error, a reason for which there
is no annotation, or annotations with their texts and the place behind them. -/
theorem report_tells_outcome (invocation : Invocation) (environment : String → Option String)
    (contents : Except ReadError ByteArray) :
    let report := invocation.report environment contents
    let Finds := invocation.Finds environment contents
    (report.code = 2 ∧ report.output = "" ↔
      invocation.Misconfigured environment ∨ Unreadable contents ∨
        ∃ source fault, Finds source (.fault fault)) ∧
    (report.code = 1 ↔ ∃ source reason place, Finds source (.rejected reason place)) ∧
    (∀ source reason place, Finds source (.rejected reason place) →
      report.output = s!"rejected at {place}: {reason.message}\n" ∧
        IsLine s!"rejected at {place}: {reason.message}") ∧
    (report.code = 2 ∧ report.output = "" ∨ report.code = 1 ∨ report.code = 0 ∧
      ∃ source spans stop, Finds source (.listed spans stop) ∧
        report.output = String.join (spans.map (annotationLine source)) ++
          invocation.command.lastLine stop ∧
        stop ≤ source.utf8ByteSize ∧ ∀ span ∈ spans, span.stop ≤ stop ∧
          ∃ rest text, text = "@" ++ rest ∧
            Text.slice? source span.start span.stop = some text ∧
            annotationLine source span = s!"{span.start}..{span.stop}\t{text}\n") := by
  intro report Finds
  refine ⟨code_eq_two_iff, code_eq_one_iff, fun source reason place hfinds => ?_, ?_⟩
  · refine ⟨congrArg Report.output hfinds.report_eq, ?_⟩
    have hfront : IsLine "rejected at " := by decide +kernel
    have hcolon : IsLine ": " := by decide +kernel
    exact ((hfront.append (isLine_toString place)).append hcolon).append hfinds.isLine
  · rcases failure_or_finds invocation environment contents with hfail | ⟨source, finding, hfinds⟩
    · exact .inl (code_eq_two_iff.2 (or_assoc.1 (.inl hfail)))
    · cases finding with
      | rejected reason place => exact .inr (.inl (code_eq_one_iff.2 ⟨_, _, _, hfinds⟩))
      | fault fault => exact .inl (code_eq_two_iff.2 (.inr (.inr ⟨_, _, hfinds⟩)))
      | listed spans stop =>
          have hreport := hfinds.report_eq
          obtain ⟨hsize, hexcerpts⟩ := hfinds.excerpts
          refine .inr (.inr ⟨congrArg Report.code hreport, source, spans, stop, hfinds,
            congrArg Report.output hreport, hsize, fun span hmem => ?_⟩)
          obtain ⟨⟨rest, hslice⟩, hstop⟩ := hexcerpts span hmem
          refine ⟨hstop, rest, _, rfl, hslice, ?_⟩
          rw [annotationLine, hslice]
          rfl

example : report ⟨none, false, .preamble "-"⟩ (fun _ => none) (.ok "@file:A\n@file:B x".toUTF8) =
    { code := 0, output := "0..7\t@file:A\n8..15\t@file:B\nbody 16\n" } := by
  decide +kernel

end Invocation

end CommandLine
end AnnotationScan
