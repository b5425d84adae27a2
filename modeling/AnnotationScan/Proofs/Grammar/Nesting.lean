import AnnotationScan.Proofs.Grammar.Shape

/-!
# Brackets of a row of tokens

What a rule consumes is read without a fault from the brackets open in front of it to those behind
it, and whatever it attempts lies behind tokens that are read without a fault.  Hence no attempt that
is made between a bracket and its counterpart goes beyond the counterpart.
-/

namespace AnnotationScan

open Peg

namespace Peg.Source

variable (source : Source TokenKind)

/-- The brackets that are open behind some tokens from `start` on. -/
def nesting (types : Bool) (before : List Bracket) (start : Nat) : Nat → Option (List Bracket)
  | 0 => some before
  | n + 1 => (nesting types before start n).bind fun inner =>
      Bracket.read types inner (source.lexeme (start + n)).kind

/-- The end marker is what it seems, and so are words. -/
structure Marked : Prop where
  marker : source.marker.kind = .endOfInput
  word : ∀ i, (source.lexeme i).isWord = true → (source.lexeme i).kind = .identifier

variable {source} {types : Bool} {before : List Bracket} {start : Nat}

theorem Marked.lt_last (h : source.Marked) {i : Nat} (hi : i ≤ source.last)
    (hkind : (source.lexeme i).kind ≠ .endOfInput) : i < source.last := by
  apply Nat.lt_of_le_of_ne hi
  rintro rfl
  rw [source.lexeme_of_last_le (Nat.le_refl _)] at hkind
  exact hkind h.marker

theorem Marked.lt_next (h : source.Marked) {i : Nat} (hi : i ≤ source.last)
    (hkind : (source.lexeme i).kind ≠ .endOfInput) : i < source.next i :=
  Nat.lt_min.2 ⟨Nat.lt_succ_self i, h.lt_last hi hkind⟩

theorem nesting_add (n k : Nat) :
    source.nesting types before start (n + k) =
      (source.nesting types before start n).bind fun inner =>
        source.nesting types inner (start + n) k := by
  induction k with
  | zero => simp [nesting]
  | succ k ih =>
      rw [← Nat.add_assoc, nesting, ih, Option.bind_assoc, ← Nat.add_assoc start n k]
      rfl

theorem nesting_trans {i j k : Nat} {between after : List Bracket} (hij : i ≤ j) (hjk : j ≤ k)
    (h : source.nesting types before i (j - i) = some between)
    (h' : source.nesting types between j (k - j) = some after) :
    source.nesting types before i (k - i) = some after := by
  obtain ⟨n, rfl⟩ := Nat.exists_eq_add_of_le hij
  obtain ⟨l, rfl⟩ := Nat.exists_eq_add_of_le hjk
  rw [Nat.add_sub_cancel_left] at h h'
  rw [Nat.add_assoc, Nat.add_sub_cancel_left, nesting_add, h]
  exact h'

theorem exists_between {i j k : Nat} {after : List Bracket} (hij : i ≤ j) (hjk : j ≤ k)
    (h : source.nesting types before i (k - i) = some after) :
    ∃ between, source.nesting types before i (j - i) = some between ∧
      source.nesting types between j (k - j) = some after := by
  rw [show k - i = (j - i) + (k - j) by omega, nesting_add, Nat.add_sub_cancel' hij] at h
  exact Option.bind_eq_some_iff.1 h

theorem nesting_one {after : List Bracket}
    (h : Bracket.read types before (source.lexeme start).kind = some after) :
    source.nesting types before start 1 = some after := by
  simpa [nesting] using h

/-- Tokens are not read beyond one that cannot be read. -/
theorem nesting_le {n k : Nat} {after inner : List Bracket}
    (h : source.nesting types before start n = some after)
    (hstuck : Bracket.read types after (source.lexeme (start + n)).kind = none)
    (hk : source.nesting types before start k = some inner) : k ≤ n := by
  by_contra hlt
  obtain ⟨l, rfl⟩ := Nat.exists_eq_add_of_le (Nat.lt_of_not_le hlt)
  rw [nesting_add, nesting, h] at hk
  simp [hstuck] at hk

theorem isUnsupported_of_nesting {n : Nat} {after : List Bracket}
    (h : source.nesting types before start n = some after) {i : Nat} (hi : i < n) :
    (source.lexeme (start + i)).kind.isUnsupported = false := by
  obtain ⟨k, rfl⟩ := Nat.exists_eq_add_of_lt hi
  rw [Nat.add_assoc, Nat.add_comm k, ← Nat.add_assoc, nesting_add, nesting] at h
  cases hkind : (source.lexeme (start + i)).kind.isUnsupported with
  | false => rfl
  | true => simp [Bracket.read, hkind] at h

/-- Either a bracket that is open in front of a row is closed within the row, or it is still open
behind it and all that is read on its own. -/
theorem nesting_closed {b : Bracket} {outer after : List Bracket} {n : Nat}
    (h : source.nesting types (b :: outer) start n = some after) :
    (∃ k < n, source.nesting (b = .angle) [] start k = some [] ∧
        Bracket.read (b = .angle) [] (source.lexeme (start + k)).kind = none ∧
        (source.lexeme (start + k)).kind.closed? (b = .angle) = some b) ∨
      ∃ inner, source.nesting (b = .angle) [] start n = some inner ∧
        after = inner ++ b :: outer := by
  induction n generalizing after with
  | zero => exact .inr ⟨[], rfl, by simpa [nesting] using h.symm⟩
  | succ n ih =>
      rw [nesting] at h
      obtain ⟨before, hbefore, hread⟩ := Option.bind_eq_some_iff.1 h
      rcases ih hbefore with ⟨k, hk, hclosed⟩ | ⟨inner, hinner, rfl⟩
      · exact .inl ⟨k, Nat.lt_succ_of_lt hk, hclosed⟩
      · rcases Bracket.read_append hread with ⟨rfl, -, hstuck, hkind⟩ | ⟨inner', hinner', rfl⟩
        · exact .inl ⟨n, Nat.lt_succ_self n, hinner, hstuck, hkind⟩
        · refine .inr ⟨inner', ?_, rfl⟩
          rw [nesting, hinner]
          exact hinner'

end Peg.Source

namespace Grammar

theorem derives_of_named {source : Source TokenKind} {trace m : Bool} {d i : Nat} {name : String}
    {part : TokenRule} {o : Outcome}
    (h : Derives source (definitions trace) d (named trace name part) m i o) :
    Derives source (definitions trace) d part m i o := by
  unfold named at h
  split at h
  · cases h with
    | traced hpart => exact hpart
  · exact h

namespace Nests

variable {source : Source TokenKind} {trace types : Bool} {before after : List Bracket}
  {rule : TokenRule}

theorem next_eq (hsource : source.Marked) {kind : TokenKind}
    (hread : Bracket.read types before kind = some after) {i : Nat} (hi : i ≤ source.last)
    (hkind : (source.lexeme i).kind = kind) : source.next i = i + 1 := by
  apply Nat.min_eq_left
  apply hsource.lt_last hi
  rintro hend
  subst hkind
  rw [hend] at hread
  simp [Bracket.read, TokenKind.isUnsupported] at hread

theorem nesting_token (hsource : source.Marked) {kind : TokenKind}
    (hread : Bracket.read types before kind = some after) {i : Nat} (hi : i ≤ source.last)
    (hkind : (source.lexeme i).kind = kind) :
    source.nesting types before i (source.next i - i) = some after := by
  rw [next_eq hsource hread hi hkind, Nat.add_sub_cancel_left]
  exact Source.nesting_one (hkind ▸ hread)

/-- What a rule consumes is read from the brackets in front of it to those behind it. -/
theorem nesting (hsource : source.Marked) {d : Nat} {m : Bool} {i : Nat} {o : Outcome}
    (hd : Derives source (definitions trace) d rule m i o) (hi : i ≤ source.last) :
    ∀ {before after}, Nests types before rule after → ∀ j, o.stop? = some j →
      source.nesting types before i (j - i) = some after := by
  -- the brackets stay general, as the second part of a sequence starts from those behind the first
  induction hd with
  | token hkind =>
      intro before after hn j hj
      cases hj
      cases hn with
      | token hread => exact nesting_token hsource hread hi hkind
  | word hword =>
      intro before after hn j hj
      cases hj
      cases hn
      exact nesting_token hsource (Bracket.read_plain rfl) hi (hsource.word _ hword)
  | keyword hword =>
      intro before after hn j hj
      cases hj
      cases hn
      exact nesting_token hsource (Bracket.read_plain rfl) hi (hsource.word _ hword.1)
  | nothing | lineBreak _ =>
      intro before after hn j hj
      cases hj
      cases hn
      simp [Source.nesting]
  | andThen hfirst hsecond ihfirst ihsecond =>
      intro before after hn k hk
      cases hn with
      | andThen hfirst' hsecond' =>
          obtain ⟨hij, hj⟩ := hfirst.bounds hi _ rfl
          have hjk := (hsecond.bounds hj _ rfl).1
          cases hk
          exact Source.nesting_trans hij hjk (ihfirst hi hfirst' _ rfl) (ihsecond hj hsecond' _ rfl)
  | orElseFirst _ ih =>
      intro before after hn j hj
      cases hn with
      | orElse hfirst hsecond => exact ih hi hfirst j hj
  | orElseSecond _ _ _ ih =>
      intro before after hn j hj
      cases hn with
      | orElse hfirst hsecond => exact ih hi hsecond j hj
  | optional _ ih =>
      intro before after hn j hj
      cases hn with
      | optional hpart =>
          cases hj
          exact ih hi hpart _ rfl
  | manyMore hpart _ hrest ihpart ihrest =>
      intro before after hn k hk
      obtain ⟨hij, hj⟩ := hpart.bounds hi _ rfl
      have hjk := (hrest.bounds hj _ rfl).1
      cases hk
      cases hn with
      | many hpart' =>
          exact Source.nesting_trans hij hjk (ihpart hi hpart' _ rfl) (ihrest hj (.many hpart') _ rfl)
  | optionalNone _ _ | manyNone _ _ | manyIdle _ _ | ahead _ _ | notAhead _ _ =>
      intro before after hn j hj
      cases hj
      cases hn
      simp [Source.nesting]
  | newlines _ ih | traced _ ih =>
      intro before after hn j hj
      cases hn
      exact ih hi ‹_› j hj
  | ref hbody _ ih =>
      intro before after hn j hj
      cases hn with
      | ref hr h =>
          subst hr
          obtain rfl := Option.some.inj ((definitions_body? trace _).symm.trans hbody)
          exact ih hi (.body h) j hj
  | any | endPoint _ _ =>
      intro before after hn
      cases hn
  | _ =>
      intro before after _ j hj
      cases hj

/-- Whatever a rule attempts lies behind tokens that are read without a fault. -/
theorem nesting_of_visits (hsource : source.Marked) {part : TokenRule} {count m : Bool}
    {place i : Nat} (hv : Visits source (definitions trace) part count place rule m i)
    (hi : i ≤ source.last) :
    ∀ {before after}, Nests types before rule after →
      ∃ inner, source.nesting types before i (place - i) = some inner := by
  induction hv with
  | here =>
      intro before after _
      exact ⟨before, by simp [Source.nesting]⟩
  | andThenSecond hfirst hsecond ih =>
      intro before after hn
      cases hn with
      | andThen hfirst' hsecond' =>
          obtain ⟨hij, hj⟩ := hfirst.bounds hi _ rfl
          obtain ⟨inner, hinner⟩ := ih hj hsecond'
          exact ⟨inner, Source.nesting_trans hij (hsecond.bounds hj).1
            (hfirst'.nesting hsource hfirst hi _ rfl) hinner⟩
  | manyMore hpart _ hrest ih =>
      intro before after hn
      cases hn with
      | many hpart' =>
          obtain ⟨hij, hj⟩ := hpart.bounds hi _ rfl
          obtain ⟨inner, hinner⟩ := ih hj (.many hpart')
          exact ⟨inner, Source.nesting_trans hij (hrest.bounds hj).1
            (hpart'.nesting hsource hpart hi _ rfl) hinner⟩
  | andThenFirst _ ih =>
      intro before after hn
      cases hn with
      | andThen hfirst _ => exact ih hi hfirst
  | orElseFirst _ ih =>
      intro before after hn
      cases hn with
      | orElse hfirst _ => exact ih hi hfirst
  | orElseSecond _ _ ih =>
      intro before after hn
      cases hn with
      | orElse _ hsecond => exact ih hi hsecond
  | optional _ ih | many _ ih | ahead _ ih | notAhead _ ih | newlines _ ih | traced _ ih =>
      intro before after hn
      cases hn
      exact ih hi ‹_›
  | endPoint _ _ =>
      intro before after hn
      cases hn
  | ref hbody _ ih =>
      intro before after hn
      cases hn with
      | ref hr h =>
          subst hr
          obtain rfl := Option.some.inj ((definitions_body? trace _).symm.trans hbody)
          exact ih hi (.body h)

end Nests

theorem lt_next_of_isPlain {source : Source TokenKind} (hsource : source.Marked) {i : Nat}
    (hplain : (source.lexeme i).kind.isPlain = true) (hi : i ≤ source.last) :
    i < source.next i := by
  apply hsource.lt_next hi
  intro hend
  rw [hend] at hplain
  cases hplain

/-- Whether every match of a rule takes a token.  The bodies of all recursive rules do. -/
def takes : TokenRule → Bool
  | .token kind => kind != .endOfInput
  | .word | .keyword _ | .ref _ | .fail _ | .failNext _ => true
  | .andThen first second => takes first || takes second
  | .orElse first second => takes first && takes second
  | .newlines _ part | .traced _ part | .endPoint part => takes part
  | _ => false

theorem takes_body (nonterminal : Nonterminal) (trace : Bool) :
    takes (nonterminal.body trace) = true := by
  revert trace
  cases nonterminal <;> decide

theorem takes_entry (settings : Settings) (entry : Entry) :
    takes ((Recognizer.build settings).rule entry) = true := by
  apply rule_cases (P := fun rule => takes rule = true)
  · decide
  · decide

/-- A match of a rule that takes a token ends behind its first token. -/
theorem lt_of_takes {source : Source TokenKind} (hsource : source.Marked) {trace m : Bool}
    {d i : Nat} {rule : TokenRule} {o : Outcome}
    (hd : Derives source (definitions trace) d rule m i o) (hi : i ≤ source.last) :
    takes rule = true → ∀ j, o.stop? = some j → i < j := by
  induction hd with
  | token hkind =>
      rintro htakes j ⟨⟩
      apply hsource.lt_next hi
      rw [hkind]
      exact ne_of_beq_false (by simpa [takes] using htakes)
  | word hword =>
      rintro - j ⟨⟩
      apply hsource.lt_next hi
      rw [hsource.word _ hword]
      decide
  | keyword hword =>
      rintro - j ⟨⟩
      apply hsource.lt_next hi
      rw [hsource.word _ hword.1]
      decide
  | andThen hfirst hsecond ihfirst ihsecond =>
      rintro htakes j ⟨⟩
      obtain ⟨hij, hj⟩ := hfirst.bounds hi _ rfl
      have hjk := (hsecond.bounds hj _ rfl).1
      rw [takes, Bool.or_eq_true] at htakes
      rcases htakes with hfirst | hsecond
      · exact Nat.lt_of_lt_of_le (ihfirst hi hfirst _ rfl) hjk
      · exact Nat.lt_of_le_of_lt hij (ihsecond hj hsecond _ rfl)
  | orElseFirst _ ih =>
      intro htakes
      rw [takes, Bool.and_eq_true] at htakes
      exact ih hi htakes.1
  | orElseSecond _ _ _ ih =>
      intro htakes
      rw [takes, Bool.and_eq_true] at htakes
      exact ih hi htakes.2
  | newlines _ ih | traced _ ih | endPoint _ ih => exact fun htakes => ih hi htakes
  | ref hbody _ ih =>
      obtain ⟨nonterminal, -, rfl⟩ := exists_of_body? hbody
      exact fun _ => ih hi (takes_body nonterminal trace)
  | nothing | any | optional _ _ | optionalNone _ _ | manyNone _ _ | manyIdle _ _
  | manyMore _ _ _ _ _ | ahead _ _ | notAhead _ _ | lineBreak _ =>
      exact fun htakes => nomatch htakes
  | _ => exact fun _ j hj => nomatch hj

end Grammar
end AnnotationScan
