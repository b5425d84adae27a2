import AnnotationScan.CommandLine.Report

/-!
# Configurations

The settings of an invocation are valid if the variables of the environment are well-formed and the
option that limits nesting does not ask for no nesting at all.  That option wins over the variable,
but the variable is looked at all the same: a value that is no limit is an error even if the option
is given.
-/

namespace AnnotationScan

namespace Settings

def valueOf {α : Type} (value? : Option String) (parse : String → Option α) (usual : α)
    (error : String → Error) : Except Error α :=
  match value? with
  | none => pure usual
  | some value =>
    match parse value with
    | some a => pure a
    | none => throw (error value)

section

variable {α : Type} {value? : Option String} {parse : String → Option α}

theorem valueOf_of_malformed {value : String} (hvalue : value? = some value)
    (hparse : parse value = none) (usual : α) (error : String → Error) :
    valueOf value? parse usual error = .error (error value) := by
  simp only [valueOf, hvalue, hparse]
  rfl

theorem valueOf_of_formed (h : ¬∃ value, value? = some value ∧ parse value = none) (usual : α)
    (error : String → Error) :
    valueOf value? parse usual error = .ok ((value?.bind parse).getD usual) := by
  cases value? with
  | none => rfl
  | some value =>
      cases hparse : parse value with
      | none => exact absurd ⟨value, rfl, hparse⟩ h
      | some a =>
          simp only [valueOf, hparse, Option.bind_some]
          rfl

end

def DepthMalformed (environment : String → Option String) : Prop :=
  ∃ value, present environment depthVariable = some value ∧ depth? value = none

def FlagMalformed (environment : String → Option String) : Prop :=
  ∃ value, present environment traceVariable = some value ∧ flag? value = none

def givenDepth (environment : String → Option String) : Nat :=
  ((present environment depthVariable).bind depth?).getD Peg.defaultDepth

def givenFlag (environment : String → Option String) : Bool :=
  ((present environment traceVariable).bind flag?).getD false

variable {environment : String → Option String}

theorem ofVariables_eq (environment : String → Option String) :
    ofVariables environment = do
      let maxDepth ← valueOf (present environment depthVariable) depth? Peg.defaultDepth
        (.invalidDepth depthVariable)
      let traceRules ← valueOf (present environment traceVariable) flag? false
        (.invalidFlag traceVariable)
      return { maxDepth, traceRules } := by
  unfold ofVariables valueOf
  generalize present environment depthVariable = limit?
  generalize present environment traceVariable = word?
  cases limit? with
  | none =>
      cases word? with
      | none => rfl
      | some word =>
          dsimp only
          cases flag? word <;> rfl
  | some limit =>
      dsimp only
      cases depth? limit with
      | none => rfl
      | some depth =>
          cases word? with
          | none => rfl
          | some word =>
              dsimp only
              cases flag? word <;> rfl

theorem ofVariables_of_formed (hdepth : ¬DepthMalformed environment)
    (hflag : ¬FlagMalformed environment) :
    ofVariables environment = .ok ⟨givenDepth environment, givenFlag environment⟩ := by
  rw [ofVariables_eq, valueOf_of_formed hdepth, valueOf_of_formed hflag]
  rfl

theorem ofVariables_of_malformed (h : DepthMalformed environment ∨ FlagMalformed environment) :
    ∃ error, ofVariables environment = .error error := by
  rw [ofVariables_eq]
  by_cases hdepth : DepthMalformed environment
  · obtain ⟨value, hpresent, hvalue⟩ := hdepth
    rw [valueOf_of_malformed hpresent hvalue]
    exact ⟨_, rfl⟩
  · obtain ⟨value, hpresent, hvalue⟩ := h.resolve_left hdepth
    rw [valueOf_of_formed hdepth, valueOf_of_malformed hpresent hvalue]
    exact ⟨_, rfl⟩

end Settings

namespace CommandLine.Invocation

/-- A variable is malformed, or the option asks for no nesting at all. -/
def Misconfigured (invocation : Invocation) (environment : String → Option String) : Prop :=
  Settings.DepthMalformed environment ∨ Settings.FlagMalformed environment ∨
    invocation.maxDepth = some 0

variable {invocation : Invocation} {environment : String → Option String}

theorem settings_of_misconfigured (h : invocation.Misconfigured environment) :
    ∃ error, invocation.settings environment = .error error := by
  unfold settings
  cases hgiven : Settings.ofVariables environment with
  | error error => exact ⟨error, rfl⟩
  | ok given =>
      have hformed : ¬(Settings.DepthMalformed environment ∨ Settings.FlagMalformed environment) :=
        fun hmalformed => by
          obtain ⟨error, herror⟩ := Settings.ofVariables_of_malformed hmalformed
          cases herror.symm.trans hgiven
      have hzero := (or_assoc.2 h).resolve_left hformed
      rw [hzero]
      exact ⟨_, rfl⟩

theorem settings_of_configured (h : ¬invocation.Misconfigured environment) :
    invocation.settings environment =
      .ok ⟨invocation.maxDepth.getD (Settings.givenDepth environment),
        Settings.givenFlag environment || invocation.traceRules⟩ := by
  obtain ⟨hdepth, hflag, hzero⟩ : ¬Settings.DepthMalformed environment ∧
      ¬Settings.FlagMalformed environment ∧ invocation.maxDepth ≠ some 0 := by
    simpa [Misconfigured] using h
  unfold settings
  rw [Settings.ofVariables_of_formed hdepth hflag]
  cases hmax : invocation.maxDepth with
  | none => rfl
  | some depth =>
      cases depth with
      | zero => exact absurd hmax hzero
      | succ depth => rfl

/-- With invalid settings nothing comes of an invocation but an error. -/
theorem report_of_misconfigured (h : invocation.Misconfigured environment)
    (contents : Except ReadError ByteArray) :
    ∃ error : Error, invocation.report environment contents = error.report := by
  obtain ⟨error, herror⟩ := settings_of_misconfigured h
  refine ⟨.settings error, ?_⟩
  rw [report, perform, herror]
  rfl

end CommandLine.Invocation
end AnnotationScan
