import AnnotationScan.Proofs.Peg.Placement

/-!
# Erasing traces

Rules and definitions without their traced parts do what they do with them, and what a parse has
learnt is the same but for the log.
-/

namespace AnnotationScan.Peg

variable {κ : Type}

namespace Rule

/-- The rule with none of its parts traced. -/
def untraced : Rule κ → Rule κ
  | .token kind => .token kind
  | .word => .word
  | .keyword text => .keyword text
  | .nothing => .nothing
  | .andThen first second => .andThen first.untraced second.untraced
  | .orElse first second => .orElse first.untraced second.untraced
  | .optional part => .optional part.untraced
  | .many part => .many part.untraced
  | .ahead part => .ahead part.untraced
  | .notAhead part => .notAhead part.untraced
  | .lineBreak => .lineBreak
  | .newlines count part => .newlines count part.untraced
  | .fail reason => .fail reason
  | .any => .any
  | .failNext reason => .failNext reason
  | .endPoint part => .endPoint part.untraced
  | .traced _ part => part.untraced
  | .ref index => .ref index

@[simp] theorem untraced_untraced (rule : Rule κ) : rule.untraced.untraced = rule.untraced := by
  induction rule with
  | traced name part ih => exact ih
  | _ => simp_all [untraced]

end Rule

namespace Definitions

/-- The definitions with no part of any body traced. -/
def untraced (definitions : Definitions κ) : Definitions κ :=
  { definitions with
    entries := definitions.entries.map fun entry =>
      { entry with body := entry.body.map Rule.untraced } }

variable (definitions : Definitions κ)

@[simp] theorem untraced_untraced : definitions.untraced.untraced = definitions.untraced := by
  simp [untraced, Function.comp_def]

theorem body?_untraced (r : Nat) :
    definitions.untraced.body? r = (definitions.body? r).map Rule.untraced := by
  simp only [body?, untraced, Array.getElem?_map]
  cases definitions.entries[r]? <;> rfl

theorem name_untraced (r : Nat) : definitions.untraced.name r = definitions.name r := by
  simp only [name, untraced, Array.getElem?_map]
  cases definitions.entries[r]? <;> rfl

end Definitions

namespace State

def unlogged (state : State) : State := { state with log := none }

theorem unlogged_note (s : State) (f : Failure) : (s.note f).unlogged = s.unlogged.note f := by
  obtain ⟨furthest, memo, log⟩ := s
  cases furthest with
  | none => rfl
  | some best =>
      simp only [note, unlogged]
      split <;> rfl

theorem unlogged_remember (s : State) (key : Application) (o : Outcome) :
    (s.remember key o).unlogged = s.unlogged.remember key o := by
  cases o <;> rfl

end State

def unlogged (x : Outcome × State) : Outcome × State := (x.1, x.2.unlogged)

/-- Two matchers do the same but for the log. -/
def Untraced (matcher matcher' : Matcher State) : Prop :=
  ∀ mode i s, matcher' mode i s.unlogged = unlogged (matcher mode i s)

variable {source : Source κ}

theorem Source.fail_untraced (source : Source κ) (reason : Reason) :
    Untraced (source.fail reason) (source.fail reason) := by
  intro mode i s
  unfold Source.fail unlogged
  cases mode.quiet with
  | true => rfl
  | false => exact congrArg _ (s.unlogged_note _).symm

theorem Source.repeated_untraced {matcher matcher' : Matcher State}
    (h : Untraced matcher matcher') (mode : Mode) (start rounds : Nat) :
    ∀ i s, source.repeated matcher' mode start rounds i s.unlogged =
      unlogged (source.repeated matcher mode start rounds i s) := by
  induction rounds with
  | zero => exact fun _ _ => rfl
  | succ rounds ih =>
      intro i s
      rw [Source.repeated, Source.repeated, h]
      rcases matcher mode i s with ⟨⟨v, j⟩ | f | cause, t⟩
      · simp only [unlogged]
        split
        · rfl
        · exact ih j t
      · rfl
      · rfl

variable [DecidableEq κ] [Describe κ]

theorem Rule.run_untraced (source : Source κ) {call call' : Nat → Matcher State} (depth : Nat)
    (hcall : ∀ r, Untraced (call r) (call' r)) (rule : Rule κ) :
    Untraced (rule.run source depth call) (rule.untraced.run source depth call') := by
  -- the log is written and never read, so each part runs as it does with an empty one
  induction rule with
  | token kind | word | keyword text | lineBreak =>
      intro mode i s
      rw [untraced, Rule.run, Rule.run]
      split
      · rfl
      · exact source.fail_untraced _ mode i s
  | nothing | any => exact fun _ _ _ => rfl
  | fail reason => exact source.fail_untraced reason
  | failNext reason => exact fun mode i s => source.fail_untraced reason mode _ s
  | andThen first second ihfirst ihsecond =>
      intro mode i s
      rw [untraced, Rule.run, Rule.run, ihfirst]
      rcases first.run source depth call mode i s with ⟨⟨v, j⟩ | f | cause, t⟩
      · dsimp only [unlogged]
        rw [ihsecond]
        rcases second.run source depth call mode j t with ⟨_ | _ | _, u⟩ <;> rfl
      · rfl
      · rfl
  | orElse first second ihfirst ihsecond =>
      intro mode i s
      rw [untraced, Rule.run, Rule.run, ihfirst]
      rcases first.run source depth call mode i s with ⟨⟨v, j⟩ | f | cause, t⟩
      · rfl
      · dsimp only [unlogged]
        rw [ihsecond]
        rcases second.run source depth call mode i t with ⟨_ | _ | _, u⟩ <;> rfl
      · rfl
  | many part ih => exact fun mode i s => Source.repeated_untraced ih mode i _ i s
  | optional part ih | ahead part ih | endPoint part ih =>
      intro mode i s
      rw [untraced, Rule.run, Rule.run, ih]
      rcases part.run source depth call mode i s with ⟨_ | _ | _, t⟩ <;> rfl
  | notAhead part ih =>
      intro mode i s
      rw [untraced, Rule.run, Rule.run, ih]
      rcases part.run source depth call { mode with quiet := true } i s with ⟨_ | _ | _, t⟩
      · exact source.fail_untraced _ mode i t
      · rfl
      · rfl
  | newlines count part ih => exact fun mode i s => ih { mode with newlines := count } i s
  | traced name part ih => exact ih
  | ref r => exact hcall r

theorem Definitions.invoke_untraced (definitions : Definitions κ) (source : Source κ)
    (limit levels r : Nat) :
    Untraced (definitions.invoke source limit levels r)
      (definitions.untraced.invoke source limit levels r) := by
  induction levels using Nat.strongRecOn generalizing r with
  | ind levels ih =>
      intro mode i s
      have hbody := definitions.body?_untraced r
      have hkey : s.unlogged.memo[(⟨definitions.untraced.scope, r, i, mode⟩ : Application)]? =
        s.memo[(⟨definitions.scope, r, i, mode⟩ : Application)]? := rfl
      apply Definitions.invoke_cases (P := fun x =>
        definitions.untraced.invoke source limit levels r mode i s.unlogged = unlogged x)
      · exact fun o hmemo => invoke_recall hmemo
      · intro hmemo hnone
        rw [invoke_undefined (hkey.trans hmemo) (hbody.trans (congrArg _ hnone)), name_untraced]
        rfl
      · rintro body hmemo hsome rfl
        rw [invoke_zero (hkey.trans hmemo) (hbody.trans (congrArg _ hsome))]
        exact source.fail_untraced _ mode i s
      · rintro body fewer hmemo hsome rfl
        have hrun := Rule.run_untraced source (limit - fewer) (ih fewer (Nat.lt_succ_self fewer))
          body mode i s
        rw [invoke_body (hkey.trans hmemo) (hbody.trans (congrArg _ hsome)), hrun]
        exact congrArg _ (State.unlogged_remember _ _ _).symm

namespace Cursor

def withLog (cursor : Cursor κ) (log : Option (List Event)) : Cursor κ :=
  { cursor with state := { cursor.state with log } }

theorem parse_unlogged (cursor : Cursor κ) (definitions : Definitions κ) (rule : Rule κ) :
    (cursor.withLog none).parse definitions.untraced rule.untraced =
      ((cursor.parse definitions rule).1, (cursor.parse definitions rule).2.withLog none) := by
  have hrun := Rule.run_untraced cursor.source cursor.depth (definitions.invoke_untraced
    cursor.source cursor.maxDepth (cursor.maxDepth - cursor.depth)) rule cursor.mode cursor.index
    cursor.state
  exact congrArg
    (fun x : Outcome × State =>
      (x.1, { cursor with index := x.1.stop?.getD cursor.index, state := x.2 })) hrun

/-- Neither traced parts nor a log make a difference to a parse. -/
theorem parse_untraced (cursor : Cursor κ) (log : Option (List Event))
    (definitions : Definitions κ) (rule : Rule κ) :
    let parsed := cursor.parse definitions rule
    let erased := (cursor.withLog log).parse definitions.untraced rule.untraced
    parsed.1 = erased.1 ∧ parsed.2.withLog none = erased.2.withLog none := by
  intro parsed erased
  have hparsed := cursor.parse_unlogged definitions rule
  have herased : (cursor.withLog none).parse definitions.untraced.untraced rule.untraced.untraced =
      (erased.1, erased.2.withLog none) := (cursor.withLog log).parse_unlogged _ _
  rw [Definitions.untraced_untraced, Rule.untraced_untraced] at herased
  exact Prod.mk.inj (hparsed.symm.trans herased)

/-- The log of a traced rule ends with the rule itself: with where it was applied, and where it
matched if it did. -/
theorem Placed.parse_traced {cursor : Cursor κ} (h : cursor.Placed) {earlier : List Event}
    (hlog : cursor.state.log = some earlier) (definitions : Definitions κ) (name : String)
    (inner : Rule κ) :
    let parsed := cursor.parse definitions (.traced name inner)
    parsed.2.drainLog.1.getLast? = some ⟨name, cursor.depth, cursor.offset,
      parsed.1.stop?.map cursor.source.offset⟩ := by
  intro parsed
  obtain ⟨-, hs⟩ := inner.run_invoke_placed definitions true cursor.maxDepth
    (cursor.maxDepth - cursor.depth) cursor.depth cursor.mode cursor.index cursor.state h.index_le
    ⟨h.liesIn, by rw [hlog]; rfl⟩
  obtain ⟨log, hlog'⟩ := Option.isSome_iff_exists.1 hs.log
  have hparsed : parsed.2.state.log = some (⟨name, cursor.depth, cursor.offset,
      parsed.1.stop?.map cursor.source.offset⟩ :: log) := congrArg (Option.map _) hlog'
  rw [drainLog, hparsed, Option.getD_some, List.getLast?_reverse, List.head?_cons]

end Cursor
end AnnotationScan.Peg
