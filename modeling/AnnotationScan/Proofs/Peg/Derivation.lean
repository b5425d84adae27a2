import AnnotationScan.Peg.Run

/-!
# Derivations

The declarative meaning of rules.  A derivation tells that a rule, applied at a token while line
breaks count or not, ends behind a token with a value or fails at a token for a reason.  There is no
state, no mode of silence and no limit: the number in front only counts how deep references are
nested in the derivation.  Nothing is derived about a rule whose attempt never comes to an end.
-/

namespace AnnotationScan.Peg

variable {κ : Type} [Describe κ]

def Source.failureAt (source : Source κ) (reason : Reason) (index : Nat) : Failure :=
  ⟨reason, index, source.offset index⟩

def Source.stay (source : Source κ) (index : Nat) : Outcome :=
  .matched (Span.point (source.offset index)) index

def Source.reach (source : Source κ) (start stop : Nat) : Outcome :=
  .matched (source.spanFrom start stop) stop

/-- `Derives source definitions nesting rule newlines index outcome`: the rule, applied at the token
`index` with line breaks counting or not, has the outcome, and at most `nesting` references lie
inside one another. -/
inductive Derives (source : Source κ) (definitions : Definitions κ) :
    (nesting : Nat) → Rule κ → (newlines : Bool) → (index : Nat) → Outcome → Prop
  | token {kind : κ} {m : Bool} {i : Nat} (h : (source.lexeme i).kind = kind) :
      Derives source definitions 0 (.token kind) m i (source.accept i)
  | noToken {kind : κ} {m : Bool} {i : Nat} (h : (source.lexeme i).kind ≠ kind) :
      Derives source definitions 0 (.token kind) m i
        (.failed (source.failureAt (.expected (Describe.describe kind)) i))
  | word {m : Bool} {i : Nat} (h : (source.lexeme i).isWord = true) :
      Derives source definitions 0 .word m i (source.accept i)
  | noWord {m : Bool} {i : Nat} (h : (source.lexeme i).isWord = false) :
      Derives source definitions 0 .word m i
        (.failed (source.failureAt (.expected "identifier") i))
  | keyword {text : String} {m : Bool} {i : Nat}
      (h : (source.lexeme i).isWord = true ∧ (source.lexeme i).text = text) :
      Derives source definitions 0 (.keyword text) m i (source.accept i)
  | noKeyword {text : String} {m : Bool} {i : Nat}
      (h : ¬((source.lexeme i).isWord = true ∧ (source.lexeme i).text = text)) :
      Derives source definitions 0 (.keyword text) m i
        (.failed (source.failureAt (.expected ("`" ++ text ++ "`")) i))
  | nothing {m : Bool} {i : Nat} :
      Derives source definitions 0 .nothing m i (source.stay i)
  | andThen {first second : Rule κ} {m : Bool} {i j k d e : Nat} {v w : Span}
      (hfirst : Derives source definitions d first m i (.matched v j))
      (hsecond : Derives source definitions e second m j (.matched w k)) :
      Derives source definitions (max d e) (.andThen first second) m i (source.reach i k)
  | andThenFirst {first second : Rule κ} {m : Bool} {i d : Nat} {f : Failure}
      (hfirst : Derives source definitions d first m i (.failed f)) :
      Derives source definitions d (.andThen first second) m i (.failed f)
  | andThenSecond {first second : Rule κ} {m : Bool} {i j d e : Nat} {v : Span} {f : Failure}
      (hfirst : Derives source definitions d first m i (.matched v j))
      (hsecond : Derives source definitions e second m j (.failed f)) :
      Derives source definitions (max d e) (.andThen first second) m i (.failed f)
  | orElseFirst {first second : Rule κ} {m : Bool} {i j d : Nat} {v : Span}
      (hfirst : Derives source definitions d first m i (.matched v j)) :
      Derives source definitions d (.orElse first second) m i (.matched v j)
  | orElseSecond {first second : Rule κ} {m : Bool} {i j d e : Nat} {v : Span} {f : Failure}
      (hfirst : Derives source definitions d first m i (.failed f))
      (hsecond : Derives source definitions e second m i (.matched v j)) :
      Derives source definitions (max d e) (.orElse first second) m i (.matched v j)
  | orElseNeither {first second : Rule κ} {m : Bool} {i d e : Nat} {f g : Failure}
      (hfirst : Derives source definitions d first m i (.failed f))
      (hsecond : Derives source definitions e second m i (.failed g)) :
      Derives source definitions (max d e) (.orElse first second) m i (.failed (f.deeper g))
  | optional {part : Rule κ} {m : Bool} {i j d : Nat} {v : Span}
      (hpart : Derives source definitions d part m i (.matched v j)) :
      Derives source definitions d (.optional part) m i (source.reach i j)
  | optionalNone {part : Rule κ} {m : Bool} {i d : Nat} {f : Failure}
      (hpart : Derives source definitions d part m i (.failed f)) :
      Derives source definitions d (.optional part) m i (source.stay i)
  | manyNone {part : Rule κ} {m : Bool} {i d : Nat} {f : Failure}
      (hpart : Derives source definitions d part m i (.failed f)) :
      Derives source definitions d (.many part) m i (source.reach i i)
  | manyIdle {part : Rule κ} {m : Bool} {i d : Nat} {v : Span}
      (hpart : Derives source definitions d part m i (.matched v i)) :
      Derives source definitions d (.many part) m i (source.reach i i)
  | manyMore {part : Rule κ} {m : Bool} {i j k d e : Nat} {v w : Span}
      (hpart : Derives source definitions d part m i (.matched v j)) (hne : j ≠ i)
      (hrest : Derives source definitions e (.many part) m j (.matched w k)) :
      Derives source definitions (max d e) (.many part) m i (source.reach i k)
  | ahead {part : Rule κ} {m : Bool} {i j d : Nat} {v : Span}
      (hpart : Derives source definitions d part m i (.matched v j)) :
      Derives source definitions d (.ahead part) m i (source.stay i)
  | aheadNone {part : Rule κ} {m : Bool} {i d : Nat} {f : Failure}
      (hpart : Derives source definitions d part m i (.failed f)) :
      Derives source definitions d (.ahead part) m i (.failed f)
  | notAhead {part : Rule κ} {m : Bool} {i d : Nat} {f : Failure}
      (hpart : Derives source definitions d part m i (.failed f)) :
      Derives source definitions d (.notAhead part) m i (source.stay i)
  | notAheadSome {part : Rule κ} {m : Bool} {i j d : Nat} {v : Span}
      (hpart : Derives source definitions d part m i (.matched v j)) :
      Derives source definitions d (.notAhead part) m i
        (.failed (source.failureAt
          (.unexpected (Describe.describe (source.lexeme i).kind)) i))
  | lineBreak {i : Nat} (h : (source.lexeme i).newlineBefore = true) :
      Derives source definitions 0 .lineBreak true i (source.stay i)
  | noLineBreak {m : Bool} {i : Nat} (h : (m && (source.lexeme i).newlineBefore) = false) :
      Derives source definitions 0 .lineBreak m i
        (.failed (source.failureAt (.expected "line break") i))
  | newlines {count : Bool} {part : Rule κ} {m : Bool} {i d : Nat} {o : Outcome}
      (hpart : Derives source definitions d part count i o) :
      Derives source definitions d (.newlines count part) m i o
  | fail {reason : Reason} {m : Bool} {i : Nat} (h : reason.isFatal = false) :
      Derives source definitions 0 (.fail reason) m i (.failed (source.failureAt reason i))
  | any {m : Bool} {i : Nat} :
      Derives source definitions 0 .any m i (source.accept i)
  | failNext {reason : Reason} {m : Bool} {i : Nat} (h : reason.isFatal = false) :
      Derives source definitions 0 (.failNext reason) m i
        (.failed (source.failureAt reason (source.next i)))
  | endPoint {part : Rule κ} {m : Bool} {i j d : Nat} {v : Span}
      (hpart : Derives source definitions d part m i (.matched v j)) :
      Derives source definitions d (.endPoint part) m i (.matched (Span.point v.stop) j)
  | endPointNone {part : Rule κ} {m : Bool} {i d : Nat} {f : Failure}
      (hpart : Derives source definitions d part m i (.failed f)) :
      Derives source definitions d (.endPoint part) m i (.failed f)
  | traced {name : String} {part : Rule κ} {m : Bool} {i d : Nat} {o : Outcome}
      (hpart : Derives source definitions d part m i o) :
      Derives source definitions d (.traced name part) m i o
  | ref {rule : Nat} {body : Rule κ} {m : Bool} {i d : Nat} {o : Outcome}
      (hbody : definitions.body? rule = some body)
      (h : Derives source definitions d body m i o) :
      Derives source definitions (d + 1) (.ref rule) m i o

namespace Derives

variable {source : Source κ} {definitions : Definitions κ}

theorem bounds {d : Nat} {rule : Rule κ} {m : Bool} {i : Nat} {o : Outcome}
    (h : Derives source definitions d rule m i o) (hi : i ≤ source.last) :
    ∀ j, o.stop? = some j → i ≤ j ∧ j ≤ source.last := by
  have hnext := fun i (hi : i ≤ source.last) =>
    And.intro (source.le_next hi) (source.next_le_last i)
  induction h with
  | andThen _ _ ihfirst ihsecond =>
      intro k hk
      obtain ⟨hij, hj⟩ := ihfirst hi _ rfl
      obtain ⟨hjk, hlast⟩ := ihsecond hj _ hk
      exact ⟨Nat.le_trans hij hjk, hlast⟩
  | manyMore _ _ _ ihpart ihrest =>
      intro k hk
      obtain ⟨hij, hj⟩ := ihpart hi _ rfl
      obtain ⟨hjk, hlast⟩ := ihrest hj _ hk
      exact ⟨Nat.le_trans hij hjk, hlast⟩
  | orElseSecond _ _ _ ihsecond => exact ihsecond hi
  | optional _ ih | orElseFirst _ ih | endPoint _ ih | newlines _ ih | traced _ ih | ref _ _ ih =>
      exact ih hi
  | _ => simp_all [Outcome.stop?, Source.accept, Source.stay, Source.reach]

end Derives
end AnnotationScan.Peg
