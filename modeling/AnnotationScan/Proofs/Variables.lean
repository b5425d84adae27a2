import AnnotationScan.Proofs.CommandLine.Configuration
import AnnotationScan.Proofs.Text.Values

/-!
# Variables of the environment

A variable is unset, which a blank value also makes it, or has a value, which means something or
not: a numeral of a positive number below 2^64 for the limit on nesting, one of eight words for
tracing, with white space around it.  Variables that are unset or mean something give the settings;
else the first variable that means nothing is told, with its value as given.
-/

namespace AnnotationScan.Settings

def Blank (value : String) : Prop := ∀ c ∈ value.toList, Text.isWhiteSpace c = true

/-- A numeral of a number by which nesting can be limited. -/
def MeansDepth (text : List Char) (depth : Nat) : Prop :=
  Text.Numeral text depth ∧ 1 ≤ depth ∧ depth ≤ 2 ^ 64 - 1

def flagWords : Bool → List String
  | true => ["1", "true", "yes", "on"]
  | false => ["0", "false", "no", "off"]

/-- A word for a flag, in capitals or not. -/
def MeansFlag (text : List Char) (flag : Bool) : Prop :=
  ∃ word ∈ flagWords flag, Text.Spells text word.toList

section

variable {α : Type}

/-- A value holds a text that means something, with white space around it. -/
def Sets (means : List Char → α → Prop) (value : String) (a : α) : Prop :=
  ∃ text, Text.Pads value.toList text ∧ means text a

/-- A variable gives what its value sets, or the usual if it is unset. -/
def Gives (means : List Char → α → Prop) (usual : α) (value? : Option String) (a : α) : Prop :=
  ((∀ value, value? = some value → Blank value) ∧ a = usual) ∨
    ∃ value, value? = some value ∧ Sets means value a

/-- A variable has a value that is not blank and sets nothing. -/
def Invalid (means : List Char → α → Prop) (value? : Option String) (value : String) : Prop :=
  value? = some value ∧ ¬Blank value ∧ ∀ a, ¬Sets means value a

/-- A reader finds what the trimmed value means, and no white space means anything. -/
structure Reads (parse : String → Option α) (means : List Char → α → Prop) : Prop where
  trimmed : ∀ value a, parse value = some a ↔ means (Text.trim value.toList) a
  bare : ∀ text a, means text a → Text.Bare text

variable {parse : String → Option α} {means : List Char → α → Prop}
  {environment : String → Option String} {name : String}

theorem present_eq_some_iff {value : String} :
    present environment name = some value ↔ environment name = some value ∧ ¬Blank value := by
  simp [present, Option.filter_eq_some_iff, Text.isBlank, Blank]

theorem present_eq_none_iff :
    present environment name = none ↔ ∀ value, environment name = some value → Blank value := by
  simp [present, Option.filter_eq_none_iff, Text.isBlank, Blank]

theorem valueOf_eq_ok_iff {value? : Option String} {usual a : α} {error : String → Error} :
    valueOf value? parse usual error = .ok a ↔
      (value? = none ∧ a = usual) ∨ ∃ value, value? = some value ∧ parse value = some a := by
  cases value? with
  | none => simp [valueOf, pure, Except.pure, eq_comm]
  | some value => cases hparse : parse value <;> simp [valueOf, hparse, pure, Except.pure]

theorem valueOf_eq_error_iff {value? : Option String} {usual : α} {error : String → Error}
    {problem : Error} : valueOf value? parse usual error = .error problem ↔
      ∃ value, value? = some value ∧ parse value = none ∧ problem = error value := by
  cases value? with
  | none => simp [valueOf, pure, Except.pure]
  | some value =>
      cases hparse : parse value with
      | none => simp [valueOf_of_malformed rfl hparse, hparse, eq_comm]
      | some a => simp [valueOf, hparse, pure, Except.pure]

namespace Reads

theorem eq_some_iff (h : Reads parse means) {value : String} {a : α} :
    parse value = some a ↔ Sets means value a := by
  rw [h.trimmed]
  constructor
  · exact fun hmeans => ⟨_, Text.pads_trim _, hmeans⟩
  · rintro ⟨text, hpads, hmeans⟩
    rwa [hpads.trim_eq (h.bare text a hmeans)]

theorem not_blank (h : Reads parse means) {value : String} {a : α} (hsets : Sets means value a) :
    ¬Blank value := by
  obtain ⟨text, hpads, hmeans⟩ := hsets
  exact hpads.not_blank (h.bare text a hmeans)

theorem given_iff (h : Reads parse means) {usual a : α} {error : String → Error} :
    valueOf (present environment name) parse usual error = .ok a ↔
      Gives means usual (environment name) a := by
  rw [valueOf_eq_ok_iff, present_eq_none_iff, Gives]
  refine or_congr_right (exists_congr fun value => ?_)
  rw [present_eq_some_iff, h.eq_some_iff, and_assoc]
  exact and_congr_right fun _ => and_iff_right_of_imp h.not_blank

theorem refused_iff (h : Reads parse means) {usual : α} {error : String → Error}
    {problem : Error} : valueOf (present environment name) parse usual error = .error problem ↔
      ∃ value, Invalid means (environment name) value ∧ problem = error value := by
  rw [valueOf_eq_error_iff]
  refine exists_congr fun value => ?_
  simp only [present_eq_some_iff, Invalid, Option.eq_none_iff_forall_ne_some, ne_eq,
    h.eq_some_iff, and_assoc]

end Reads

end

/-! ## What the two variables mean -/

theorem reads_depth : Reads depth? MeansDepth where
  trimmed value depth := by
    rw [depth?, Option.filter_eq_some_iff, Text.natural?_eq_some_iff, decide_eq_true_iff,
      and_assoc, and_comm (b := 0 < depth)]
    rfl
  bare _ _ hmeans := hmeans.1.bare

theorem plain_of_mem_flagWords : ∀ flag, ∀ word ∈ flagWords flag, word.toList ≠ [] ∧
    (∀ d ∈ word.toList, d.toLower = d) ∧
      ∀ d ∈ word.toList, Text.isWhiteSpace d = false ∧ Text.isWhiteSpace d.toUpper = false := by
  simp [flagWords, Text.isWhiteSpace]

theorem eq_of_mem_flagWords {flag flag' : Bool} {word : String} (h : word ∈ flagWords flag)
    (h' : word ∈ flagWords flag') : flag = flag' := by
  have hdisjoint : ∀ word ∈ flagWords true, word ∉ flagWords false := by decide +kernel
  cases flag <;> cases flag'
  · rfl
  · exact absurd h (hdisjoint word h')
  · exact absurd h' (hdisjoint word h)
  · rfl

theorem flag?_eq_some_iff {value : String} {flag : Bool} : flag? value = some flag ↔
    String.ofList ((Text.trim value.toList).map Char.toLower) ∈ flagWords flag := by
  generalize hword : String.ofList ((Text.trim value.toList).map Char.toLower) = word
  have hflag : flag? value = if word ∈ flagWords true then some true
      else if word ∈ flagWords false then some false else none := by
    simp only [flag?, hword, List.contains_iff_mem]
    rfl
  rw [hflag]
  constructor
  · intro h
    split at h
    case isTrue htrue => exact Option.some.inj h ▸ htrue
    case isFalse =>
      split at h
      case isTrue hfalse => exact Option.some.inj h ▸ hfalse
      case isFalse => cases h
  · intro h
    cases flag with
    | true => rw [if_pos h]
    | false =>
        have htrue : word ∉ flagWords true := fun htrue => nomatch eq_of_mem_flagWords h htrue
        rw [if_neg htrue, if_pos h]

theorem reads_flag : Reads flag? MeansFlag where
  trimmed value flag := by
    have hspells : ∀ word ∈ flagWords flag,
        ((Text.trim value.toList).map Char.toLower = word.toList ↔
          Text.Spells (Text.trim value.toList) word.toList) := fun word hword =>
      Text.map_toLower_eq_iff (plain_of_mem_flagWords flag word hword).2.1
    rw [flag?_eq_some_iff]
    constructor
    · exact fun hword => ⟨_, hword, (hspells _ hword).1 String.toList_ofList.symm⟩
    · rintro ⟨word, hword, h⟩
      rwa [(hspells word hword).2 h, String.ofList_toList]
  bare text flag := by
    rintro ⟨word, hword, h⟩
    obtain ⟨hne, -, hplain⟩ := plain_of_mem_flagWords flag word hword
    exact h.bare hne hplain

/-! ## The settings that variables give -/

section

variable {depth : Except Error Nat} {flag : Except Error Bool}

theorem both_eq_ok_iff {settings : Settings} :
    (do let maxDepth ← depth; let traceRules ← flag; return { maxDepth, traceRules }) =
        Except.ok settings ↔
      depth = .ok settings.maxDepth ∧ flag = .ok settings.traceRules := by
  obtain ⟨maxDepth, traceRules⟩ := settings
  cases depth <;> cases flag <;> simp [bind, Except.bind, pure, Except.pure]

theorem both_eq_error_iff {error : Error} :
    (do let maxDepth ← depth; let traceRules ← flag; return ({ maxDepth, traceRules } : Settings)) =
        Except.error error ↔
      depth = .error error ∨ (∃ maxDepth, depth = .ok maxDepth) ∧ flag = .error error := by
  cases depth <;> cases flag <;> simp [bind, Except.bind, pure, Except.pure]

end

/-- Variables that are unset or mean something give the settings, and else the first one that means
nothing is told, with its value; a limit on nesting is read as it is written in decimal. -/
theorem ofVariables_reads (environment : String → Option String) :
    (∀ settings, ofVariables environment = .ok settings ↔
      Gives MeansDepth 512 (environment "KTS_MAX_DEPTH") settings.maxDepth ∧
        Gives MeansFlag false (environment "KTS_TRACE_RULES") settings.traceRules) ∧
    (∀ error, ofVariables environment = .error error ↔
      (∃ value, Invalid MeansDepth (environment "KTS_MAX_DEPTH") value ∧
        error = .invalidDepth "KTS_MAX_DEPTH" value) ∨
      (∃ depth, Gives MeansDepth 512 (environment "KTS_MAX_DEPTH") depth) ∧
        ∃ value, Invalid MeansFlag (environment "KTS_TRACE_RULES") value ∧
          error = .invalidFlag "KTS_TRACE_RULES" value) ∧
    ∀ (depth : Nat) (front back : String) (flag : Bool), 1 ≤ depth → depth ≤ 2 ^ 64 - 1 →
      Blank front → Blank back →
      environment "KTS_MAX_DEPTH" = some (front ++ toString depth ++ back) →
      Gives MeansFlag false (environment "KTS_TRACE_RULES") flag →
      ofVariables environment = .ok ⟨depth, flag⟩ := by
  have hok : ∀ settings, ofVariables environment = .ok settings ↔
      Gives MeansDepth 512 (environment "KTS_MAX_DEPTH") settings.maxDepth ∧
        Gives MeansFlag false (environment "KTS_TRACE_RULES") settings.traceRules := by
    intro settings
    rw [ofVariables_eq, both_eq_ok_iff, reads_depth.given_iff, reads_flag.given_iff]
    rfl
  refine ⟨hok, fun error => ?_, fun depth front back flag hpos hle hfront hback hvalue hflag => ?_⟩
  · rw [ofVariables_eq, both_eq_error_iff, reads_depth.refused_iff, reads_flag.refused_iff]
    simp only [reads_depth.given_iff]
    rfl
  · have hpads : Text.Pads (front ++ toString depth ++ back).toList (toString depth).toList :=
      ⟨front.toList, back.toList, by rw [String.toList_append, String.toList_append], hfront, hback⟩
    have hmeans : MeansDepth (toString depth).toList depth :=
      ⟨Text.numeral_toString depth, hpos, hle⟩
    exact (hok _).2 ⟨.inr ⟨_, hvalue, _, hpads, hmeans⟩, hflag⟩

def withVariables (depth flag name : String) : Option String :=
  if name = depthVariable then some depth else if name = traceVariable then some flag else none

/-- The greatest limit, between spaces that are not ASCII, and a flag with a capital. -/
theorem ofVariables_reads_greatest :
    ofVariables (withVariables "\u3000 18446744073709551615\u2003\n" "\tYes ") =
      .ok ⟨18446744073709551615, true⟩ := by
  have hblank : Blank "\u3000 " ∧ Blank "\u2003\n" := by simp [Blank, Text.isWhiteSpace]
  have hpads : Text.Pads "\tYes ".toList ['Y', 'e', 's'] :=
    ⟨['\t'], [' '], by decide +kernel, by simp [Text.isWhiteSpace], by simp [Text.isWhiteSpace]⟩
  have hmeans : MeansFlag ['Y', 'e', 's'] true :=
    ⟨"yes", by simp [flagWords], .cons (.inr rfl) (.cons (.inl rfl) (.cons (.inl rfl) .nil))⟩
  exact (ofVariables_reads _).2.2 18446744073709551615 "\u3000 " "\u2003\n" true (by decide)
    (by decide) hblank.1 hblank.2 (by decide +kernel)
    (.inr ⟨"\tYes ", by decide +kernel, _, hpads, hmeans⟩)

end AnnotationScan.Settings
