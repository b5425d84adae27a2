import AnnotationScan.Proofs.Peg.Adequacy
import AnnotationScan.Proofs.Peg.Matching
import AnnotationScan.Proofs.Peg.Translation

/-!
# Matches elsewhere

A rule matches on another source what it matches on the first one, if the tokens look alike wherever
a part of it is attempted, and it matches on a whole row what it matches on the rest of the row.
-/

namespace AnnotationScan.Peg

variable {κ : Type} [DecidableEq κ] [Describe κ] {source source' : Source κ}
  {definitions : Definitions κ} {rule : Rule κ} {m : Bool} {i j : Nat}

/-- An outcome on one source is found on any other one that looks alike. -/
theorem Derives.alike {d : Nat} {o : Outcome} (h : Derives source definitions d rule m i o)
    (hi : i ≤ source.last) (halike : source.AlikeFor source' definitions rule m i) :
    ∃ o', (Likeness.loose source source').Outcome o o' ∧
      ∃ e, Derives source' definitions e rule m i o' := by
  have hinside : i ≤ source'.last := (halike _ _ _ .here).inside
  have hshared : (Likeness.loose source source').Shared definitions ({} : State) {} :=
    ⟨State.truthful_of_memo_empty rfl, .none, fun _ _ _ _ _ => by simp⟩
  have hrun := h.run_invoke hi d d 0 (Nat.le_refl d) ⟨m, false⟩ rfl
    (State.truthful_of_memo_empty (s := {}) rfl)
  obtain ⟨houtcome, -⟩ := ((Likeness.loose source source').run_invoke_inStep (fun _ => False) d d
    (Nat.le_refl d) (.inr ⟨rfl, rfl⟩) 0 0 rule ⟨m, false⟩ i {} {} hi hshared halike).of_false
  obtain ⟨-, hexplained⟩ := rule.run_invoke_sound source' definitions d d 0 ⟨m, false⟩ i {} hinside
    (State.truthful_of_memo_empty rfl)
  rw [hrun] at houtcome
  exact ⟨_, houtcome, hexplained.derives (houtcome.isDecided_eq ▸ h.isDecided)⟩

theorem Matches.alike (h : Matches source definitions rule m i j) (hi : i ≤ source.last)
    (halike : source.AlikeFor source' definitions rule m i) :
    Matches source' definitions rule m i j := by
  obtain ⟨d, v, hd⟩ := h
  obtain ⟨o', houtcome, e, he⟩ := hd.alike hi halike
  cases houtcome with
  | matched _ => exact ⟨e, _, he⟩

/-- What is matched on the rest of a row is matched on the row. -/
theorem Matches.of_behind {k : Nat} (hk : k ≤ source.last) (hi : i ≤ (source.behind k).last)
    (h : Matches (source.behind k) definitions rule m i j) :
    Matches source definitions rule m (k + i) (k + j) := by
  obtain ⟨d, v, hd⟩ := h
  have hempty : ({} : State).Shifted k {} := ⟨rfl, by simp⟩
  have hrun := hd.run_invoke hi d d 0 (Nat.le_refl d) ⟨m, false⟩ rfl
    (State.truthful_of_memo_empty (s := {}) rfl)
  obtain ⟨o, s, t, hwhole, hrest, -⟩ := rule.run_behind hk (definitions.invoke_behind hk d d) 0
    ⟨m, false⟩ i {} {} hempty
  obtain ⟨-, hexplained⟩ := rule.run_invoke_sound source definitions d d 0 ⟨m, false⟩ (k + i) {}
    (by rw [Source.last_behind] at hi; omega) (State.truthful_of_memo_empty rfl)
  rw [hrest] at hrun
  obtain rfl : o = .matched v j := hrun
  rw [hwhole] at hexplained
  obtain ⟨e, he⟩ := hexplained
  exact ⟨e, v, he⟩

end AnnotationScan.Peg
