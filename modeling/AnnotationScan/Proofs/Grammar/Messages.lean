import AnnotationScan.Proofs.Peg.Traits
import AnnotationScan.Proofs.Recognition

/-!
# Messages are single lines

The reasons that the operators of the annotation grammar give are told without a line feed, and so
is the limit on nesting.  Hence whatever failure an entry reports, its message is a single line.
-/

namespace AnnotationScan

namespace Peg

def IsLine (text : String) : Prop := '\n' ∉ text.toList

instance : DecidablePred IsLine := fun text => inferInstanceAs (Decidable ('\n' ∉ text.toList))

theorem IsLine.append {text text' : String} (h : IsLine text) (h' : IsLine text') :
    IsLine (text ++ text') := by
  rw [IsLine, String.toList_append, List.mem_append]
  exact not_or.2 ⟨h, h'⟩

theorem isLine_toString (n : Nat) : IsLine (toString n) := by
  rw [IsLine, Nat.toString_eq_repr, Nat.repr_eq_ofList_toDigits, String.toList_ofList]
  intro hmem
  cases Nat.isDigit_of_mem_toDigits (by decide) (by decide) hmem

theorem isLine_depthLimit (limit : Nat) : IsLine (Reason.depthLimit limit).message := by
  have hfront : IsLine "nesting deeper than " := by decide +kernel
  have hback : IsLine " levels" := by decide +kernel
  exact (hfront.append (isLine_toString limit)).append hback

theorem isLine_expected {what : String} (h : IsLine what) :
    IsLine (Reason.expected what).message := by
  have hfront : IsLine "expected " := by decide +kernel
  exact hfront.append h

theorem isLine_unexpected {what : String} (h : IsLine what) :
    IsLine (Reason.unexpected what).message := by
  have hfront : IsLine "unexpected " := by decide +kernel
  exact hfront.append h

variable {κ : Type} {source : Source κ}

/-- The words that a rule asks for and the reasons that it gives of its own are told in one line. -/
def Rule.saysLines : Rule κ → Bool
  | .keyword text => decide (IsLine text)
  | .fail reason | .failNext reason => decide (IsLine reason.message)
  | .token _ | .word | .lineBreak | .nothing | .any | .ref _ => true
  | .andThen first second | .orElse first second => first.saysLines && second.saysLines
  | .optional part | .many part | .ahead part | .notAhead part | .newlines _ part
  | .endPoint part | .traced _ part => part.saysLines

def toldInLines : Trait where
  value _ _ _ := True
  failure _ failure := IsLine failure.reason.message
  lost := True

theorem toldInLines_lawful : toldInLines.Lawful source where
  spanFrom _ _ _ _ := trivial
  token _ _ := trivial
  earlier _ _ _ _ hf := hf

theorem Rule.upholds_toldInLines [Describe κ] (hkinds : ∀ kind : κ, IsLine (Describe.describe kind))
    {condition : Prop} (rule : Rule κ) (h : rule.saysLines = true) :
    rule.Upholds source (toldInLines.whenever condition) := by
  induction rule with
  | token kind => exact fun _ _ => isLine_expected (hkinds kind)
  | word =>
      have hword : IsLine "identifier" := by decide +kernel
      exact fun _ _ => isLine_expected hword
  | lineBreak =>
      have hbreak : IsLine "line break" := by decide +kernel
      exact fun _ _ => isLine_expected hbreak
  | keyword text =>
      have hquote : IsLine "`" := by decide +kernel
      exact fun _ _ => isLine_expected ((hquote.append (of_decide_eq_true h)).append hquote)
  | fail reason | failNext reason =>
      have hreason : IsLine reason.message := of_decide_eq_true h
      exact fun _ _ => hreason
  | nothing | any | ref _ => trivial
  | andThen _ _ ihfirst ihsecond | orElse _ _ ihfirst ihsecond =>
      obtain ⟨hfirst, hsecond⟩ := Bool.and_eq_true_iff.1 h
      exact ⟨ihfirst hfirst, ihsecond hsecond⟩
  | optional _ ih | many _ ih | ahead _ ih | newlines _ _ ih | traced _ _ ih => exact ih h
  | notAhead _ ih => exact ⟨ih h, fun kind _ _ => isLine_unexpected (hkinds kind)⟩
  | endPoint _ ih => exact ⟨ih h, fun _ _ _ _ _ => trivial⟩

end Peg

namespace Grammar

open Peg

theorem isLine_describe (kind : TokenKind) : IsLine (Describe.describe kind) := by
  cases kind <;> decide +kernel

theorem saysLines_body (nonterminal : Nonterminal) (trace : Bool) :
    (nonterminal.body trace).saysLines = true := by
  revert trace
  cases nonterminal <;> decide +kernel

theorem saysLines_entry (settings : Settings) (entry : Entry) :
    ((Recognizer.build settings).rule entry).saysLines = true := by
  apply rule_cases (P := fun rule : TokenRule => rule.saysLines = true)
  · decide +kernel
  · decide +kernel

theorem upholds_toldInLines (source : Source TokenKind) (trace : Bool) :
    (definitions trace).Upholds source toldInLines fun _ => True where
  body r body hbody := by
    obtain ⟨nonterminal, -, rfl⟩ := exists_of_body? hbody
    exact Rule.upholds_toldInLines isLine_describe _ (saysLines_body nonterminal trace)
  closed _ _ _ _ _ _ := trivial

end Grammar

namespace Recognizer

open Peg

theorem isLine_of_recognize {settings : Settings} {entry : Entry} {source : Source TokenKind}
    {cursor : Cursor TokenKind} (h : cursor.Outermost source) {failure : Failure}
    (herror : ((build settings).recognize entry cursor).1 = .error failure) :
    IsLine failure.reason.message := by
  have hdefined := entryParse_not_isUndefined settings entry h
  obtain ⟨rfl, -, -, hindex⟩ := h
  let start := cursor.forgetFailure.forgetResults
  have hindex : start.index ≤ start.source.last := hindex
  have hempty : start.state.Keeps start.source toldInLines fun _ _ => True :=
    ⟨fun _ _ ho => by simp [start, Cursor.forgetResults] at ho, fun _ hf => nomatch hf⟩
  obtain ⟨hhas, hkeeps⟩ := Cursor.parse_shows (P := False) toldInLines_lawful trivial
    (fun _ _ => isLine_depthLimit _) hindex hempty
    (Grammar.upholds_toldInLines _ settings.traceRules)
    (Rule.upholds_toldInLines Grammar.isLine_describe _ (Grammar.saysLines_entry settings entry))
    False.elim
  rw [recognize_eq] at herror
  change ((build settings).entryParse entry cursor).1.Has _ _ _ at hhas
  change ((build settings).entryParse entry cursor).2.state.Keeps _ _ _ at hkeeps
  generalize (build settings).entryParse entry cursor = parsed at hdefined hhas hkeeps herror
  obtain ⟨o, after⟩ := parsed
  cases o with
  | matched span stop => cases herror
  | failed f =>
      obtain rfl := Except.error.inj herror
      cases hbest : after.state.furthest with
      | none => exact hhas
      | some best => exact (hkeeps.furthest best hbest).elim fun _ hbest => hbest
  | aborted cause =>
      cases cause with
      | fatal f =>
          obtain rfl := Except.error.inj herror
          exact hhas
      | undefinedRule name => exact absurd ⟨name, rfl⟩ hdefined

end Recognizer
end AnnotationScan
