import Mathlib.Control.Monad.Basic
import AnnotationScan.Proofs.CommandLine.Configuration

/-!
# The option that limits nesting

Arguments that are accepted and contain the option `--max-depth` set the limit on nesting.  What the
program prints and returns then depends no further on the variable of that name than that a
malformed one is an error.
-/

namespace AnnotationScan.CommandLine

theorem bind_eq_ok {ε α β : Type} {x : Except ε α} {f : α → Except ε β} {b : β} :
    (x >>= f) = .ok b ↔ ∃ a, x = .ok a ∧ f a = .ok b := by
  cases x with
  | error e => exact ⟨nofun, fun ⟨a, ha, _⟩ => nomatch ha⟩
  | ok a => exact ⟨fun h => ⟨a, rfl, h⟩, fun ⟨a', ha, h⟩ => Except.ok.inj ha ▸ h⟩

/-! ## What the option looks like -/

/-- An argument in front of two hyphens is the option, be it with its value or without. -/
def LimitsDepth (arguments : List String) : Prop :=
  ∃ argument ∈ arguments.takeWhile (· != "--"),
    argument = "--max-depth" ∨ ∃ value, argument = "--max-depth=" ++ value

def Argument.IsLimit (argument : Argument) : Prop := ∃ value, argument = .long "max-depth" value

theorem isLimit_ofString {argument : String}
    (h : argument = "--max-depth" ∨ ∃ value, argument = "--max-depth=" ++ value) :
    (Argument.ofString argument).IsLimit := by
  rcases h with rfl | ⟨value, rfl⟩
  · exact ⟨none, by decide +kernel⟩
  · refine ⟨some value, ?_⟩
    have htext : ("--max-depth=" ++ value).toList =
        '-' :: '-' :: ("max-depth".toList ++ '=' :: value.toList) := by
      rw [String.toList_append]
      rfl
    rw [Argument.ofString, htext]
    simp

theorem eq_of_separator {text : String} (h : Argument.ofString text = .separator) :
    text = "--" := by
  unfold Argument.ofString at h
  split at h
  case h_1 htext => exact String.toList_inj.1 htext
  case h_2 =>
    dsimp only at h
    split at h <;> cases h
  all_goals cases h

/-! ## Options -/

namespace Options

/-- The limit on nesting has been read, or its value comes next, or it has been taken. -/
def LimitsDepth (options : Options) : Prop :=
  options.maxDepth.isSome = true ∨ options.awaiting = some .maxDepth ∨
    options.awaiting = none ∧ ∃ value, options.unread = some (.maxDepth, value)

variable {options taken : Options} {name : String} {value : Option String}

theorem maxDepth_set {setter : Setter} {text : String} (h : options.set setter text = .ok taken) :
    (setter = .maxDepth ∨ options.maxDepth.isSome = true) → taken.maxDepth.isSome = true := by
  intro hlimit
  unfold set at h
  cases setter with
  | maxDepth =>
      dsimp only at h
      split at h
      · obtain rfl := Except.ok.inj h
        rfl
      · cases h
  | offset =>
      dsimp only at h
      split at h
      · obtain rfl := Except.ok.inj h
        exact hlimit.resolve_left nofun
      · cases h

theorem LimitsDepth.settle (hlimit : options.LimitsDepth) (h : options.settle = .ok taken) :
    taken.maxDepth.isSome = true := by
  unfold Options.settle at h
  split at h
  case h_1 => cases h
  case h_2 setter text hawaiting hunread =>
    apply maxDepth_set h
    rcases hlimit with hread | hnext | ⟨-, value, htaken⟩
    · exact .inr hread
    · cases hawaiting.symm.trans hnext
    · obtain ⟨rfl, -⟩ := Prod.mk.inj (Option.some.inj (hunread.symm.trans htaken))
      exact .inl rfl
  case h_3 hawaiting hunread =>
    obtain rfl := Except.ok.inj h
    rcases hlimit with hread | hnext | ⟨-, value, htaken⟩
    · exact hread
    · cases hawaiting.symm.trans hnext
    · cases hunread.symm.trans htaken

theorem LimitsDepth.takeValue (hlimit : options.LimitsDepth) {setter : Setter}
    (hawaiting : options.awaiting = some setter) (text : String) :
    (options.takeValue setter text).LimitsDepth := by
  rcases hlimit with hread | hnext | ⟨hnone, -⟩
  · exact .inl hread
  · obtain rfl := Option.some.inj (hawaiting.symm.trans hnext)
    exact .inr (.inr ⟨rfl, text, rfl⟩)
  · cases hawaiting.symm.trans hnone

/-- What an option comes to, if the arguments are accepted. -/
theorem takeLong_cases (h : options.takeLong name value = .ok taken) :
    ∃ settled, options.settle = .ok settled ∧
      ((∃ setter text, setter? options.place name = some setter ∧ value = some text ∧
          settled.set setter text = .ok taken) ∨
        (∃ setter, setter? options.place name = some setter ∧ value = none ∧
          taken = { settled with awaiting := some setter }) ∨
        name = "trace-rules" ∧ value = none ∧ settled.traceRules = false ∧
          taken = { settled with traceRules := true }) := by
  unfold takeLong at h
  cases hsetter : setter? options.place name with
  | some setter =>
      rw [hsetter] at h
      cases value with
      | some text =>
          obtain ⟨settled, hsettled, hset⟩ := bind_eq_ok.1 h
          exact ⟨settled, hsettled, .inl ⟨setter, text, rfl, rfl, hset⟩⟩
      | none =>
          obtain ⟨settled, hsettled, hpure⟩ := bind_eq_ok.1 h
          obtain rfl := Except.ok.inj hpure
          exact ⟨settled, hsettled, .inr (.inl ⟨setter, rfl, rfl, rfl⟩)⟩
  | none =>
      rw [hsetter] at h
      cases value with
      | some text => cases h
      | none =>
          obtain ⟨settled, hsettled, hrest⟩ := bind_eq_ok.1 h
          split at hrest
          · cases hrest
          · split at hrest
            · cases hrest
            · split at hrest
              case isTrue hunset =>
                have hflag : settled.traceRules = false := by simpa using hunset.2
                obtain rfl := Except.ok.inj hrest
                exact ⟨settled, hsettled, .inr (.inr ⟨hunset.1, rfl, hflag, rfl⟩)⟩
              case isFalse => cases hrest

theorem limitsDepth_takeLong (hlimit : options.LimitsDepth ∨ name = "max-depth")
    (h : options.takeLong name value = .ok taken) : taken.LimitsDepth := by
  have hfirst : ∀ setter, name = "max-depth" → setter? options.place name = some setter →
      setter = .maxDepth := by
    rintro setter rfl hsetter
    exact (Option.some.inj hsetter).symm
  obtain ⟨settled, hsettled, ⟨setter, text, hsetter, -, hset⟩ | ⟨setter, hsetter, -, rfl⟩ |
    ⟨rfl, -, -, rfl⟩⟩ := takeLong_cases h
  · refine .inl (maxDepth_set hset ?_)
    rcases hlimit with hlimit | hname
    · exact .inr (hlimit.settle hsettled)
    · exact .inl (hfirst setter hname hsetter)
  · rcases hlimit with hlimit | hname
    · have hread := hlimit.settle hsettled
      exact .inl hread
    · exact .inr (.inl (congrArg some (hfirst setter hname hsetter)))
  · have hread := (hlimit.resolve_right (by decide)).settle hsettled
    exact .inl hread

theorem not_takeShort {letter : Char} : options.takeShort letter ≠ .ok taken := by
  intro h
  obtain ⟨settled, -, hrest⟩ := bind_eq_ok.1 h
  split at hrest
  · cases hrest
  · split at hrest <;> cases hrest

end Options

/-! ## Lists of arguments -/

/-- The option has been read, or it comes in front of two hyphens. -/
def Limited (options : Options) (arguments : List String) : Prop :=
  options.LimitsDepth ∨ ∃ argument ∈ arguments.takeWhile (· != "--"),
    (Argument.ofString argument).IsLimit

section

variable {options : Options} {text : String} {rest : List String}

theorem limited_separator (h : Limited options (text :: rest))
    (htext : Argument.ofString text = .separator) : options.LimitsDepth := by
  obtain rfl := eq_of_separator htext
  simpa [Limited] using h

theorem limited_cons (h : Limited options (text :: rest)) :
    options.LimitsDepth ∨ (Argument.ofString text).IsLimit ∨
      ∃ argument ∈ rest.takeWhile (· != "--"), (Argument.ofString argument).IsLimit := by
  rcases h with h | ⟨argument, hmem, hlimit⟩
  · exact .inl h
  · rw [List.takeWhile_cons] at hmem
    split at hmem
    · rcases List.mem_cons.1 hmem with rfl | hmem
      · exact .inr (.inl hlimit)
      · exact .inr (.inr ⟨argument, hmem, hlimit⟩)
    · cases hmem

theorem limited_plain {value : String} {taken : Options} (h : Limited options (text :: rest))
    (htext : Argument.ofString text = .plain value)
    (htaken : options.LimitsDepth → taken.LimitsDepth) : Limited taken rest := by
  rcases limited_cons h with h | ⟨value', hvalue⟩ | h
  · exact .inl (htaken h)
  · cases htext.symm.trans hvalue
  · exact .inr h

theorem limited_long {name : String} {value : Option String} {taken : Options}
    (h : Limited options (text :: rest)) (htext : Argument.ofString text = .long name value)
    (htaken : options.takeLong name value = .ok taken) : Limited taken rest := by
  rcases limited_cons h with h | hlimit | h
  · exact .inl (Options.limitsDepth_takeLong (.inl h) htaken)
  · obtain ⟨value', hvalue⟩ := hlimit
    obtain ⟨rfl, -⟩ := Argument.long.inj (htext.symm.trans hvalue)
    exact .inl (Options.limitsDepth_takeLong (.inr rfl) htaken)
  · exact .inr h

/-- What reading an argument behind a command comes to, if the arguments are accepted. -/
theorem readFile_cons {separated : Bool} {file : Option String} {result : Options × String}
    (h : readFile (text :: rest) options separated file = .ok result) :
    (separated = false ∧ Argument.ofString text = .separator ∧
      readFile rest options true file = .ok result) ∨
    (∃ name value taken, separated = false ∧ Argument.ofString text = .long name value ∧
      options.takeLong name value = .ok taken ∧ readFile rest taken false file = .ok result) ∨
    (∃ setter value, separated = false ∧ Argument.ofString text = .plain value ∧
      options.awaiting = some setter ∧
      readFile rest (options.takeValue setter value) false file = .ok result) ∨
    ∃ value settled, (separated = true ∨ Argument.ofString text = .plain value) ∧
      options.settle = .ok settled ∧
      readFile rest settled separated (some value) = .ok result := by
  -- what is no option is the name of the file, behind a separator whatever it looks like
  have hname : ∀ value, (do
      let options ← options.settle
      if file.isSome || value.isEmpty then throw Dismissal.misuse
      else readFile rest options separated (some value)) = .ok result →
      ∃ settled, options.settle = .ok settled ∧
        readFile rest settled separated (some value) = .ok result := by
    intro value h
    obtain ⟨settled, hsettled, hrest⟩ := bind_eq_ok.1 h
    split at hrest
    · cases hrest
    · exact ⟨settled, hsettled, hrest⟩
  rw [readFile] at h
  cases separated with
  | true =>
      obtain ⟨settled, hsettled, hrest⟩ := hname text (by
        revert h
        cases options.awaiting <;> exact id)
      exact .inr (.inr (.inr ⟨text, settled, .inl rfl, hsettled, hrest⟩))
  | false =>
      simp only [Bool.false_eq_true, if_false] at h
      cases htext : Argument.ofString text with
      | separator =>
          rw [htext] at h
          exact .inl ⟨rfl, rfl, h⟩
      | long name value =>
          rw [htext] at h
          obtain ⟨taken, htaken, hrest⟩ := bind_eq_ok.1 h
          exact .inr (.inl ⟨name, value, taken, rfl, rfl, htaken, hrest⟩)
      | short letter =>
          rw [htext] at h
          obtain ⟨taken, htaken, -⟩ := bind_eq_ok.1 h
          exact absurd htaken Options.not_takeShort
      | plain value =>
          rw [htext] at h
          cases hawaiting : options.awaiting with
          | some setter =>
              rw [hawaiting] at h
              exact .inr (.inr (.inl ⟨setter, value, rfl, rfl, rfl, h⟩))
          | none =>
              rw [hawaiting] at h
              obtain ⟨settled, hsettled, hrest⟩ := hname value h
              exact .inr (.inr (.inr ⟨value, settled, .inr rfl, hsettled, hrest⟩))

/-- What reading an argument in front of a command, or the command, comes to, if the arguments are
accepted. -/
theorem readCommand_cons {invocation : Invocation}
    (h : readCommand (text :: rest) options = .ok invocation) :
    (∃ name value taken, Argument.ofString text = .long name value ∧
      options.takeLong name value = .ok taken ∧ readCommand rest taken = .ok invocation) ∨
    (∃ setter value, Argument.ofString text = .plain value ∧ options.awaiting = some setter ∧
      readCommand rest (options.takeValue setter value) = .ok invocation) ∨
    ∃ value place inner file front command, Argument.ofString text = .plain value ∧
      readFile rest { place } false none = .ok (inner, file) ∧ options.settle = .ok front ∧
      front.invocation inner command = invocation := by
  have hfile : ∀ (place : Place) (command : Options → String → Command), (do
      let found ← readFile rest { place } false none
      return (← options.settle).invocation found.1 (command found.1 found.2)) = .ok invocation →
      ∃ inner file front, readFile rest { place } false none = .ok (inner, file) ∧
        options.settle = .ok front ∧ front.invocation inner (command inner file) = invocation := by
    intro place command h
    obtain ⟨⟨inner, file⟩, hread, hrest⟩ := bind_eq_ok.1 h
    obtain ⟨front, hfront, hpure⟩ := bind_eq_ok.1 hrest
    exact ⟨inner, file, front, hread, hfront, Except.ok.inj hpure⟩
  rw [readCommand] at h
  cases htext : Argument.ofString text with
  | separator =>
      rw [htext] at h
      cases h
  | long name value =>
      rw [htext] at h
      obtain ⟨taken, htaken, hrest⟩ := bind_eq_ok.1 h
      exact .inl ⟨name, value, taken, rfl, htaken, hrest⟩
  | short letter =>
      rw [htext] at h
      obtain ⟨taken, htaken, -⟩ := bind_eq_ok.1 h
      exact absurd htaken Options.not_takeShort
  | plain value =>
      rw [htext] at h
      cases hawaiting : options.awaiting with
      | some setter =>
          rw [hawaiting] at h
          exact .inr (.inl ⟨setter, value, rfl, rfl, h⟩)
      | none =>
          rw [hawaiting] at h
          dsimp only at h
          split at h
          · obtain ⟨inner, file, front, hread, hfront, hown⟩ :=
              hfile .scan (fun inner file => .scan file (inner.offset.getD 0)) h
            exact .inr (.inr ⟨value, _, inner, file, front, _, rfl, hread, hfront, hown⟩)
          · split at h
            · obtain ⟨inner, file, front, hread, hfront, hown⟩ :=
                hfile .preamble (fun _ file => .preamble file) h
              exact .inr (.inr ⟨value, _, inner, file, front, _, rfl, hread, hfront, hown⟩)
            · split at h <;> cases h

end

theorem maxDepth_readFile {inner : Options} {path : String} (arguments : List String) :
    ∀ (options : Options) (separated : Bool) (file : Option String),
      options.LimitsDepth ∨ separated = false ∧ Limited options arguments →
      readFile arguments options separated file = .ok (inner, path) →
        inner.maxDepth.isSome = true := by
  induction arguments with
  | nil =>
      intro options separated file hlimit h
      obtain ⟨settled, hsettled, hfile⟩ := bind_eq_ok.1 h
      have hlimit : options.LimitsDepth := by
        rcases hlimit with hlimit | ⟨-, hlimit | ⟨argument, hmem, -⟩⟩
        · exact hlimit
        · exact hlimit
        · cases hmem
      have hread := hlimit.settle hsettled
      cases file with
      | none => cases hfile
      | some file =>
          obtain ⟨rfl, -⟩ := Prod.mk.inj (Except.ok.inj hfile)
          exact hread
  | cons text rest ih =>
      intro options separated file hlimit h
      -- behind two hyphens nothing is an option, so that it has been read by then
      have hrow : separated = false → Limited options (text :: rest) := fun hseparated =>
        hlimit.elim .inl And.right
      rcases readFile_cons h with ⟨hopen, htext, hrest⟩ |
        ⟨name, value, taken, hopen, htext, htaken, hrest⟩ |
        ⟨setter, value, hopen, htext, hawaiting, hrest⟩ | ⟨value, settled, htext, hsettled, hrest⟩
      · exact ih _ _ _ (.inl (limited_separator (hrow hopen) htext)) hrest
      · exact ih _ _ _ (.inr ⟨rfl, limited_long (hrow hopen) htext htaken⟩) hrest
      · refine ih _ _ _ (.inr ⟨rfl, limited_plain (hrow hopen) htext ?_⟩) hrest
        exact fun hlimit => hlimit.takeValue hawaiting value
      · refine ih _ _ _ ?_ hrest
        rcases hlimit with hlimit | ⟨rfl, hlimit⟩
        · exact .inl (.inl (hlimit.settle hsettled))
        · refine .inr ⟨rfl, limited_plain hlimit (htext.resolve_left nofun) ?_⟩
          exact fun hlimit => .inl (hlimit.settle hsettled)

/-- Arguments that are accepted set the limit on nesting if they contain the option. -/
theorem maxDepth_readCommand {invocation : Invocation} (arguments : List String) :
    ∀ options : Options, Limited options arguments →
      readCommand arguments options = .ok invocation → invocation.maxDepth.isSome = true := by
  induction arguments with
  | nil =>
      intro options hlimit h
      cases h
  | cons text rest ih =>
      intro options hlimit h
      rcases readCommand_cons h with ⟨name, value, taken, htext, htaken, hrest⟩ |
        ⟨setter, value, htext, hawaiting, hrest⟩ |
        ⟨value, place, inner, file, front, command, htext, hread, hfront, rfl⟩
      · exact ih _ (limited_long hlimit htext htaken) hrest
      · refine ih _ (limited_plain hlimit htext ?_) hrest
        exact fun hlimit => hlimit.takeValue hawaiting value
      · -- the option stands in front of the command or behind it
        rcases limited_plain hlimit htext id with hlimit | hbehind
        · have hdepth := hlimit.settle hfront
          simp [Options.invocation, hdepth]
        · have hdepth := maxDepth_readFile rest _ false none (.inr ⟨rfl, .inr hbehind⟩) hread
          simp [Options.invocation, hdepth]

namespace Invocation

variable {invocation : Invocation} {environment environment' : String → Option String}

theorem report_congr (h : invocation.settings environment = invocation.settings environment')
    (contents : Except ReadError ByteArray) :
    invocation.report environment contents = invocation.report environment' contents := by
  rw [report, report, perform, perform, h]

/-- What arguments with the option `--max-depth` make the program print and return does not depend
on the variable that limits nesting, apart from whether that is malformed. -/
theorem report_overridden (arguments : List String) (invocation : Invocation)
    (haccepted : Invocation.ofArguments arguments = .ok invocation)
    (hlimit : LimitsDepth arguments) (environment environment' : String → Option String)
    (hagree : ∀ name, name ≠ Settings.depthVariable → environment name = environment' name)
    (hmalformed : Settings.DepthMalformed environment ↔ Settings.DepthMalformed environment')
    (contents : Except ReadError ByteArray) :
    let report := invocation.report environment contents
    let report' := invocation.report environment' contents
    report.code = report'.code ∧ report.output = report'.output := by
  obtain ⟨argument, hmem, hform⟩ := hlimit
  have hdepth : invocation.maxDepth.isSome = true :=
    maxDepth_readCommand arguments _ (.inr ⟨argument, hmem, isLimit_ofString hform⟩) haccepted
  have htrace : Settings.present environment Settings.traceVariable =
      Settings.present environment' Settings.traceVariable := by
    rw [Settings.present, Settings.present, hagree _ (by decide +kernel)]
  have hconfigured :
      invocation.Misconfigured environment ↔ invocation.Misconfigured environment' := by
    rw [Misconfigured, Misconfigured, hmalformed, Settings.FlagMalformed, Settings.FlagMalformed,
      htrace]
  by_cases hmis : invocation.Misconfigured environment
  · obtain ⟨error, herror⟩ := report_of_misconfigured hmis contents
    obtain ⟨error', herror'⟩ := report_of_misconfigured (hconfigured.1 hmis) contents
    rw [herror, herror']
    exact ⟨rfl, rfl⟩
  · have hsettings : invocation.settings environment = invocation.settings environment' := by
      obtain ⟨depth, hdepth⟩ := Option.isSome_iff_exists.1 hdepth
      rw [settings_of_configured hmis, settings_of_configured (hmis ∘ hconfigured.2), hdepth,
        Settings.givenFlag, Settings.givenFlag, htrace]
      rfl
    rw [report_congr hsettings]
    exact ⟨rfl, rfl⟩

def withDepth (value : String) (name : String) : Option String :=
  if name = Settings.depthVariable then some value else none

/-- A limit with blanks around it in the variable makes no difference where the option is given. -/
theorem report_overridden_padded :
    let arguments := ["--max-depth", "2", "annotation", "-"]
    ∃ invocation, Invocation.ofArguments arguments = .ok invocation ∧
      ∀ contents, (invocation.report (withDepth " 64 ") contents).output =
        (invocation.report (fun _ => none) contents).output := by
  intro arguments
  refine ⟨⟨some 2, false, .scan "-" 0⟩, by decide +kernel, fun contents => ?_⟩
  have hagree : ∀ name, name ≠ Settings.depthVariable → withDepth " 64 " name = none :=
    fun name hname => if_neg hname
  have hformed : ¬Settings.DepthMalformed (withDepth " 64 ") := by
    rintro ⟨value, hpresent, hvalue⟩
    have hsome : Settings.present (withDepth " 64 ") Settings.depthVariable = some " 64 " := by
      decide +kernel
    obtain rfl := Option.some.inj (hsome.symm.trans hpresent)
    have hdepth : Settings.depth? " 64 " = some 64 := by decide +kernel
    cases hdepth.symm.trans hvalue
  have habsent : ¬Settings.DepthMalformed fun _ => none := fun ⟨_, hpresent, _⟩ => nomatch hpresent
  exact (report_overridden arguments _ (by decide +kernel)
    ⟨"--max-depth", by decide +kernel, .inl rfl⟩ (withDepth " 64 ") (fun _ => none) hagree
    (iff_of_false hformed habsent) contents).2

/-- A malformed variable is an error in spite of the option. -/
theorem not_forall_report_overridden :
    ¬∀ (arguments : List String) (invocation : Invocation) (limit : Nat),
      Invocation.ofArguments arguments = .ok invocation → 0 < limit →
      ["--max-depth", toString limit] <:+: arguments →
      ∀ environment environment' : String → Option String,
        (∀ name, name ≠ Settings.depthVariable → environment name = environment' name) →
        ∀ contents : Except ReadError ByteArray,
          (invocation.report environment contents).code =
            (invocation.report environment' contents).code ∧
          (invocation.report environment contents).output =
            (invocation.report environment' contents).output := by
  intro h
  have hsame := h ["--max-depth", "4", "annotation", "-"] ⟨some 4, false, .scan "-" 0⟩ 4
    (by decide +kernel) (by decide) ⟨[], ["annotation", "-"], by decide +kernel⟩ (withDepth "deep")
    (fun _ => none) (fun name hname => if_neg hname) (.ok "@Foo".toUTF8)
  have hmalformed : Settings.DepthMalformed (withDepth "deep") :=
    ⟨"deep", by decide +kernel, by decide +kernel⟩
  obtain ⟨error, herror⟩ : ∃ error : Error, report ⟨some 4, false, .scan "-" 0⟩
      (withDepth "deep") (.ok "@Foo".toUTF8) = error.report :=
    report_of_misconfigured (.inl hmalformed) _
  have hok :
      (report ⟨some 4, false, .scan "-" 0⟩ (fun _ => none) (.ok "@Foo".toUTF8)).code = 0 := by
    decide +kernel
  rw [herror, hok] at hsame
  cases hsame.1

end Invocation
end AnnotationScan.CommandLine
