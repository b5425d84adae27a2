import AnnotationScan.Proofs.Peg.Calls

/-!
# Rules whose references are defined

A parse stops at a reference to a rule without a body.  It never does so if the references in every
rule that is applied, and in the bodies behind them, are defined.
-/

namespace AnnotationScan.Peg

variable {κ : Type}

def Rule.RefersTo : Rule κ → Nat → Prop
  | .andThen first second, r | .orElse first second, r => first.RefersTo r ∨ second.RefersTo r
  | .optional part, r | .many part, r | .ahead part, r | .notAhead part, r | .newlines _ part, r
  | .endPoint part, r | .traced _ part, r => part.RefersTo r
  | .ref rule, r => rule = r
  | _, _ => False

/-- Every reference in the body of a known rule is to a known rule, and that has a body. -/
structure Definitions.Closed (definitions : Definitions κ) (known : Nat → Prop) : Prop where
  defined : ∀ r, known r → ∃ body, definitions.body? r = some body
  closed : ∀ r body, known r → definitions.body? r = some body →
    ∀ r', body.RefersTo r' → known r'

def Outcome.IsUndefined (o : Outcome) : Prop := ∃ name, o = .aborted (.undefinedRule name)

variable [Describe κ] {source : Source κ} {definitions : Definitions κ}

theorem Calls.refersTo {r j i : Nat} {mode' mode : Mode} {rule : Rule κ}
    (h : Calls source definitions r mode' j rule mode i) : rule.RefersTo r := by
  induction h with
  | here => rfl
  | andThenFirst _ ih | orElseFirst _ ih => exact .inl ih
  | andThenSecond _ _ ih | orElseSecond _ _ ih => exact .inr ih
  | optional _ ih | many _ ih | manyMore _ _ _ ih | ahead _ ih | notAhead _ ih | newlines _ ih
  | endPoint _ ih | traced _ ih => exact ih

namespace Definitions.Closed

variable {known : Nat → Prop}

/-- Rules that are known call rules that are known, and those are defined. -/
theorem keeps (h : definitions.Closed known) (source : Source κ) (limit : Nat) :
    definitions.Keeps source limit (fun _ r _ _ => known r) (fun cause => ∃ f, cause = .fatal f)
      (fun _ => True) where
  note _ _ _ hs := hs
  observe _ _ hs := hs
  remember _ _ _ _ _ _ _ hs := hs
  undefined levels r mode i hr hnone := by
    obtain ⟨body, hbody⟩ := h.defined r hr
    cases hnone.symm.trans hbody
  limited _ _ _ _ f _ := ⟨f, rfl⟩
  fatal _ _ _ _ _ _ _ _ f _ := ⟨f, rfl⟩
  calls levels r mode i body hr hbody _ r' mode' j hcall :=
    h.closed r body hr hbody r' hcall.refersTo

variable [DecidableEq κ]

/-- A parse from a cursor at rest never stops for want of a definition. -/
theorem parse_not_isUndefined (h : definitions.Closed known) {cursor : Cursor κ}
    (hcursor : cursor.AtRest source definitions) {rule : Rule κ}
    (hrule : ∀ r, rule.RefersTo r → known r) :
    ¬(cursor.parse definitions rule).1.IsUndefined := by
  have hparse := hcursor.parse_proceeds (h.keeps source cursor.maxDepth) rule
    (fun _ f _ => ⟨f, rfl⟩) (fun r mode' j hcall => hrule r hcall.refersTo) trivial
  rintro ⟨name, hundefined⟩
  rcases hparse with ⟨cause, hcause, f, rfl⟩ | ⟨hdecided, -⟩
  · cases hcause.symm.trans hundefined
  · cases (congrArg Outcome.isDecided hundefined).symm.trans hdecided

end Definitions.Closed
end AnnotationScan.Peg
