import AnnotationScan.Proofs.Grammar.FirstTokens
import AnnotationScan.Proofs.Grammar.Lines

/-!
# A semicolon at a line break

A literal ends a line of a lambda, and the next line starts with an opening bracket.  With a
semicolon in front of the bracket a rule does on the longer row of tokens what it does on the
shorter one: what comes to the end of the literal goes on in neither row, but for separators, which
take the line break in the one row and the semicolon in the other.  `fits` walks through a rule and
finds this out; it is evaluated on the bodies of the recursive rules once and for all.
-/

namespace AnnotationScan

open Peg

namespace Grammar

def openings : List TokenKind := [.leftParen, .leftBracket, .leftBrace]

/-! ## Where a rule is applied -/

/-- Where a rule is applied, as seen from the line break. -/
inductive Spot where
  /-- In front of the literal. -/
  | before
  /-- At the literal. -/
  | literal
  /-- At the bracket, or at the semicolon in front of it. -/
  | opening
  /-- At the bracket or behind it, with the semicolon passed. -/
  | behind
deriving DecidableEq

/-- The tokens where a rule is applied on the two rows; `j` is the bracket of the shorter one. -/
def Spot.Holds (j : Nat) : Spot → (i i' : Nat) → Prop
  | .before, i, i' => i + 1 < j ∧ i' = i
  | .literal, i, i' => i + 1 = j ∧ i' = i
  | .opening, i, i' => i = j ∧ i' = j
  | .behind, i, i' => j ≤ i ∧ i' = i + 1

namespace Spot.Holds

variable {j i i' k k' : Nat} {spot next : Spot}

theorem bounds (h : spot.Holds j i i') : i ≤ i' ∧ i' ≤ i + 1 := by
  cases spot <;> simp only [Holds] at h <;> omega

/-- Only behind the line break the rows are apart. -/
theorem eq_behind (h : spot.Holds j i i') (hne : i' ≠ i) : spot = .behind ∧ i' = i + 1 := by
  cases spot with
  | behind => exact ⟨rfl, h.2⟩
  | before | literal => exact absurd h.2 hne
  | opening => exact absurd (h.2.trans h.1.symm) hne

theorem stop_eq (h : spot.Holds j i i') (hne : i ≠ j) : i' = if i < j then i else i + 1 := by
  cases spot <;> simp only [Holds] at h <;> split <;> omega

theorem lt (h : spot.Holds j i i') (hnext : next.Holds j k k') (hik : i < k) : i' < k' := by
  cases spot <;> cases next <;> simp only [Holds] at h hnext <;> omega

end Spot.Holds

/-- Whether a match of a rule may end behind the literal if it starts in front of the literal, or,
with `close`, at the literal. -/
def endsAtLiteral : (close : Bool) → TokenRule → Bool
  | close, .token kind => close && literals.contains kind
  | close, .andThen first second =>
    endsAtLiteral close first && !takes second || endsAtLiteral close second ||
      endsAtLiteral true second
  | close, .orElse first second => endsAtLiteral close first || endsAtLiteral close second
  | close, .many part => endsAtLiteral close part || endsAtLiteral true part
  | close, .optional part | close, .newlines _ part | close, .traced _ part
  | close, .endPoint part => endsAtLiteral close part
  | close, .ref rule =>
    rule == Nonterminal.expression.index || rule == Nonterminal.assignableExpression.index ||
      close && rule == Nonterminal.primaryExpression.index
  | _, .any => true
  | _, _ => false

theorem endsAtLiteral_body (nonterminal : Nonterminal) (close trace : Bool) :
    endsAtLiteral close (nonterminal.body trace) = endsAtLiteral close nonterminal.rule := by
  revert close trace
  cases nonterminal <;> decide

theorem endsAtLiteral_plainEntry : ∀ trace, endsAtLiteral false (plainEntry trace) = false ∧
    endsAtLiteral true (plainEntry trace) = false := by
  decide

variable {source source' : Source TokenKind} {trace m : Bool} {rule part first second : TokenRule}
  {spot next : Spot} {d i i' j k k' : Nat} {o : Outcome}

theorem endsAtLiteral_of_derives (hsource : source.Marked) (hj : j ≤ source.last)
    (hliteral : ∀ i, i + 1 = j → (source.lexeme i).kind ∈ literals)
    (hd : Derives source (definitions trace) d rule m i o) :
    i < j → o.stop? = some j → endsAtLiteral (i + 1 == j) rule = true := by
  have hclose : ∀ {i k}, i ≤ k → k < j → (k + 1 == j) = (i + 1 == j) ∨ (k + 1 == j) = true := by
    intro i k hik hkj
    by_cases hlast : k + 1 = j
    · exact .inr (beq_iff_eq.2 hlast)
    · refine .inl ?_
      rw [beq_eq_false_iff_ne.2 hlast, beq_eq_false_iff_ne.2 (by omega)]
  have hword : ∀ {i}, (source.lexeme i).isWord = true → source.next i = j → i < j → False := by
    intro i hword hnext hi
    have hkind := hliteral i (by rw [Source.next] at hnext; omega)
    rw [hsource.word i hword] at hkind
    exact absurd hkind (by decide)
  induction hd with
  | @token kind _ i hkind =>
      rintro hi ⟨⟩
      have hnext : i + 1 = source.next i := by
        have := Source.next_of_lt (Nat.lt_of_lt_of_le hi hj)
        omega
      have hmem := hliteral i hnext
      rw [hkind] at hmem
      rw [endsAtLiteral, beq_iff_eq.2 hnext, Bool.true_and]
      exact List.contains_iff_mem.2 hmem
  | word h =>
      rintro hi ⟨⟩
      exact (hword h rfl hi).elim
  | keyword h =>
      rintro hi ⟨⟩
      exact (hword h.1 rfl hi).elim
  | @andThen first second m i k l d e v w hfirst hsecond ihfirst ihsecond =>
      rintro hi ⟨⟩
      have hil : i ≤ source.last := Nat.le_trans (Nat.le_of_lt hi) hj
      obtain ⟨hik, hk⟩ := hfirst.bounds hil _ rfl
      have hkj := (hsecond.bounds hk _ rfl).1
      rw [endsAtLiteral]
      rcases Nat.eq_or_lt_of_le hkj with rfl | hlt
      · -- the second part has taken nothing, so the first one ends behind the literal
        have htakes : takes second = false := by
          rw [Bool.eq_false_iff]
          exact fun htakes => Nat.lt_irrefl _ (lt_of_takes hsource hsecond hk htakes _ rfl)
        simp [ihfirst hi rfl, htakes]
      · have hends := ihsecond hlt rfl
        rcases hclose hik hlt with hsame | hnear
        · simp [← hsame, hends]
        · rw [hnear] at hends
          simp [hends]
  | orElseFirst _ ih =>
      intro hi hstop
      simp [endsAtLiteral, ih hi hstop]
  | orElseSecond _ _ _ ih =>
      intro hi hstop
      simp [endsAtLiteral, ih hi hstop]
  | optional _ ih => exact fun hi hstop => ih hi hstop
  | @manyMore part m i k l d e v w hpart hne hrest ihpart ihrest =>
      rintro hi ⟨⟩
      have hil : i ≤ source.last := Nat.le_trans (Nat.le_of_lt hi) hj
      obtain ⟨hik, hk⟩ := hpart.bounds hil _ rfl
      have hkj := (hrest.bounds hk _ rfl).1
      rw [endsAtLiteral]
      rcases Nat.eq_or_lt_of_le hkj with rfl | hlt
      · simp [ihpart hi rfl]
      · have hends := ihrest hlt rfl
        rw [endsAtLiteral, Bool.or_eq_true] at hends
        rcases hclose hik hlt with hsame | hnear
        · rwa [hsame, ← Bool.or_eq_true] at hends
        · rw [hnear, or_self] at hends
          simp [hends]
  | newlines _ ih | traced _ ih | endPoint _ ih =>
      exact fun hi hstop => ih hi hstop
  | ref hbody _ ih =>
      intro hi hstop
      obtain ⟨nonterminal, rfl, rfl⟩ := exists_of_body? hbody
      rw [← Nonterminal.rule, ← endsAtLiteral_body nonterminal _ trace]
      exact ih hi hstop
  | any => exact fun _ _ => rfl
  | nothing | optionalNone _ _ | manyNone _ _ | manyIdle _ _ | ahead _ _ | notAhead _ _
  | lineBreak _ =>
      rintro hi ⟨⟩
      exact absurd hi (Nat.lt_irrefl _)
  | _ => rintro - ⟨⟩

/-! ## What goes on behind the literal -/

/-- Whether a rule may end at a spot, behind which it has not passed the semicolon, if it is applied
at another one. -/
def leadsTo (spot : Spot) (rule : TokenRule) (next : Spot) : Bool :=
  match spot, next with
  | .before, .before | .before, .literal | .literal, .literal => true
  | .before, .opening => endsAtLiteral false rule
  | .literal, .opening => endsAtLiteral true rule
  | .opening, .opening => !(takes rule || rule == separator)
  | _, _ => false

def isOnSameLine : TokenRule → Bool
  | .andThen first _ => first == .notAhead .lineBreak
  | _ => false

/-- The rules that do alike on both rows though a part of them does not: targets of assignments at
the literal, and at the line break separators and whatever stays on its line. -/
def excused (spot : Spot) (rule : TokenRule) : Bool :=
  match spot with
  | .literal => rule == plainTarget ||
    rule == .newlines false Nonterminal.directlyAssignableExpression.rule
  | .opening => rule == separator ||
    isOnSameLine rule && verdict? .semicolon rule == some false
  | _ => false

/-- Whether a rule does alike on both rows if it is applied at a spot. -/
def fits : Spot → TokenRule → Bool
  | _, .word | _, .keyword _ | _, .nothing | _, .fail _ | _, .failNext _ => true
  | spot, .token kind => spot != .opening || !(TokenKind.semicolon :: openings).contains kind
  | spot, .lineBreak | spot, .any => spot != .opening
  | spot, .andThen first second => excused spot (.andThen first second) || fits spot first &&
      [Spot.before, .literal, .opening].all fun next => !leadsTo spot first next || fits next second
  | spot, .orElse first second => excused spot (.orElse first second) ||
      fits spot first && fits spot second
  | spot, .many part => fits spot part && [Spot.before, .literal, .opening].all fun next =>
      !leadsTo spot (.many part) next || fits next part
  | spot, .newlines count part => excused spot (.newlines count part) || fits spot part
  | spot, .optional part | spot, .ahead part | spot, .notAhead part | spot, .endPoint part
  | spot, .traced _ part => fits spot part
  | spot, .ref rule => spot != .opening &&
      (spot != .literal || rule != Nonterminal.directlyAssignableExpression.index)

set_option maxRecDepth 4000 in
theorem fits_body (nonterminal : Nonterminal) (spot : Spot) (trace : Bool) :
    fits spot nonterminal.rule = true → fits spot (nonterminal.body trace) = true := by
  revert trace
  cases nonterminal <;> cases spot <;> decide

theorem fits_plainEntry : ∀ trace, fits .before (plainEntry trace) = true ∧
    fits .literal (plainEntry trace) = true := by
  decide

/-- Behind the line break the rows are the same. -/
theorem fits_behind : fits .behind rule = true := by
  induction rule with
  | andThen first second ihfirst ihsecond => simp [fits, leadsTo, ihfirst]
  | orElse first second ihfirst ihsecond => simp [fits, ihfirst, ihsecond]
  | many part ih => simp [fits, leadsTo, ih]
  | newlines count part ih => simp [fits, ih]
  | optional part ih | ahead part ih | notAhead part ih | endPoint part ih | traced name part ih =>
      exact ih
  | _ => rfl

theorem fits_next {leads : Spot → Bool} {part : TokenRule}
    (h : ([Spot.before, .literal, .opening].all fun next => !leads next || fits next part) = true) :
    ∀ next, next = .behind ∨ leads next = true → fits next part = true := by
  rintro next (rfl | hleads)
  · exact fits_behind
  · simp only [List.all_cons, List.all_nil, Bool.and_true, Bool.and_eq_true] at h
    cases next with
    | before => simpa [hleads] using h.1
    | literal => simpa [hleads] using h.2.1
    | opening => simpa [hleads] using h.2.2
    | behind => exact fits_behind

theorem fits_andThen (h : fits spot (.andThen first second) = true) :
    excused spot (.andThen first second) = true ∨ fits spot first = true ∧
      ∀ next, next = .behind ∨ leadsTo spot first next = true → fits next second = true := by
  rw [fits, Bool.or_eq_true, Bool.and_eq_true] at h
  exact h.imp_right (And.imp_right fits_next)

theorem fits_orElse (h : fits spot (.orElse first second) = true) :
    excused spot (.orElse first second) = true ∨
      fits spot first = true ∧ fits spot second = true := by
  rwa [fits, Bool.or_eq_true, Bool.and_eq_true] at h

theorem fits_many (h : fits spot (.many part) = true) : fits spot part = true ∧
    ∀ next, next = .behind ∨ leadsTo spot (.many part) next = true → fits next part = true := by
  rw [fits, Bool.and_eq_true] at h
  exact h.imp_right fits_next

theorem leadsTo_many (h : leadsTo spot part next = true) :
    leadsTo spot (.many part) next = true := by
  cases spot <;> cases next <;> simp_all [leadsTo, endsAtLiteral, takes, separator, Rule.choice]

/-- Where a repetition leads from the end of one round it leads from its start. -/
theorem leadsTo_trans {last : Spot} (h : leadsTo spot part next = true)
    (h' : leadsTo next (.many part) last = true) : leadsTo spot (.many part) last = true := by
  cases spot <;> cases next <;> cases last <;> simp_all [leadsTo, endsAtLiteral]

/-- A repetition goes on wherever one round of it leads. -/
theorem fits_many_next (h : fits spot (.many part) = true)
    (hnext : next = .behind ∨ leadsTo spot part next = true) : fits next (.many part) = true := by
  rcases hnext with rfl | hleads
  · exact fits_behind
  obtain ⟨-, hrounds⟩ := fits_many h
  rw [fits, Bool.and_eq_true, List.all_eq_true]
  refine ⟨hrounds next (.inr (leadsTo_many hleads)), fun last _ => ?_⟩
  cases hlast : leadsTo next (.many part) last with
  | false => rfl
  | true => exact hrounds last (.inr (leadsTo_trans hleads hlast))

/-! ## The two rows -/

/-- The longer row has a semicolon in front of the bracket `j` of the shorter one, which starts a
line behind a literal.  An index that the bracket opens is not assigned to. -/
structure Separates (source source' : Source TokenKind) (trace : Bool) (j : Nat) : Prop where
  marked : source.Marked
  marked' : source'.Marked
  last : source'.last = source.last + 1
  front : ∀ i < j, source'.lexeme i = source.lexeme i
  semicolon : (source'.lexeme j).kind = .semicolon
  behind : ∀ i, j ≤ i → source'.lexeme (i + 1) = source.lexeme i
  literal : ∀ i, i + 1 = j → (source.lexeme i).kind ∈ literals
  opening : (source.lexeme j).kind ∈ openings
  line : (source.lexeme j).newlineBefore = true
  index : ∀ k, Matches source (definitions trace) indexingSuffix true j k →
    (source.lexeme k).kind ≠ .assign

/-- Line breaks count wherever one is asked for at the line break, or the target of an assignment at
the literal or the bracket. -/
def CountsAt (source : Source TokenKind) (trace : Bool) (j : Nat) (rule : TokenRule) (m : Bool)
    (i : Nat) : Prop :=
  ∀ part count place, Visits source (definitions trace) part count place rule m i →
    part = .lineBreak ∨ part = Nonterminal.directlyAssignableExpression.rule →
    place = j ∨ place + 1 = j → count = true

theorem CountsAt.of {inner : TokenRule} {m' : Bool} {k : Nat} (h : CountsAt source trace j rule m i)
    (hinner : ∀ {part count place}, Visits source (definitions trace) part count place inner m' k →
      Visits source (definitions trace) part count place rule m i) :
    CountsAt source trace j inner m' k :=
  fun part count place hv => h part count place (hinner hv)

/-- What comes of a rule on the shorter row comes of it on the longer one. -/
def Mirrors (source' : Source TokenKind) (trace : Bool) (j : Nat) (rule : TokenRule) (m : Bool)
    (i' : Nat) : Outcome → Prop
  | .matched _ k => ∃ (next : Spot) (k' : Nat), next.Holds j k k' ∧
      Matches source' (definitions trace) rule m i' k'
  | .failed _ => Refuses source' (definitions trace) rule m i'
  | .aborted _ => True

theorem Mirrors.of_matches (hd : Derives source (definitions trace) d rule m i o)
    (hi : i ≤ source.last) (hmatch : Matches source (definitions trace) rule m i k)
    (hnext : next.Holds j k k') (hmatch' : Matches source' (definitions trace) rule m i' k') :
    Mirrors source' trace j rule m i' o := by
  obtain ⟨e, v, he⟩ := hmatch
  obtain rfl := hd.unique he hi
  exact ⟨next, k', hnext, hmatch'⟩

theorem Mirrors.of_refuses (hd : Derives source (definitions trace) d rule m i o)
    (hi : i ≤ source.last) (hnone : Refuses source (definitions trace) rule m i)
    (hnone' : Refuses source' (definitions trace) rule m i') :
    Mirrors source' trace j rule m i' o := by
  obtain ⟨e, f, he⟩ := hnone
  obtain rfl := hd.unique he hi
  exact hnone'

theorem Mirrors.imp {rule' : TokenRule} {m' : Bool} (h : Mirrors source' trace j rule m i' o)
    (hmatches : ∀ k', Matches source' (definitions trace) rule m i' k' →
      Matches source' (definitions trace) rule' m' i' k')
    (hrefuses : Refuses source' (definitions trace) rule m i' →
      Refuses source' (definitions trace) rule' m' i') : Mirrors source' trace j rule' m' i' o := by
  cases o with
  | matched v k =>
      obtain ⟨next, k', hnext, hmatch⟩ := h
      exact ⟨next, k', hnext, hmatches k' hmatch⟩
  | failed f => exact hrefuses h
  | aborted cause => trivial

namespace Separates

theorem lt_last (h : Separates source source' trace j) : j < source.last := by
  by_contra hlast
  have hopening := h.opening
  rw [source.lexeme_of_last_le (Nat.le_of_not_lt hlast), h.marked.marker] at hopening
  exact absurd hopening (by decide)

theorem next_eq (h : Separates source source' trace j) : source'.next j = j + 1 :=
  Source.next_of_lt (by rw [h.last]; exact Nat.lt_succ_of_lt h.lt_last)

theorem isWord_eq_false (h : Separates source source' trace j) :
    (source.lexeme j).isWord = false ∧ (source'.lexeme j).isWord = false := by
  constructor
  · refine Bool.eq_false_iff.2 fun hword => ?_
    have hopening := h.opening
    rw [h.marked.word j hword] at hopening
    exact absurd hopening (by decide)
  · refine Bool.eq_false_iff.2 fun hword => ?_
    cases h.semicolon.symm.trans (h.marked'.word j hword)

theorem refuses_opening (h : Separates source source' trace j)
    (hverdict : ∀ kind ∈ openings, verdict? kind rule = some false) :
    Refuses source (definitions trace) rule m j :=
  refuses_of_verdict h.marked (fun hkind => absurd (hkind ▸ h.opening) (by decide))
    (hverdict _ h.opening)

theorem refuses_semicolon (h : Separates source source' trace j)
    (hverdict : verdict? .semicolon rule = some false) :
    Refuses source' (definitions trace) rule m j := by
  apply refuses_of_verdict h.marked'
  · rw [h.semicolon]
    decide
  · rwa [h.semicolon]

theorem exists_holds (hi : i ≤ j) : ∃ spot : Spot, spot.Holds j i i := by
  rcases Nat.lt_trichotomy (i + 1) j with hlt | heq | hgt
  · exact ⟨.before, hlt, rfl⟩
  · exact ⟨.literal, heq, rfl⟩
  · obtain rfl : i = j := by omega
    exact ⟨.opening, rfl, rfl⟩

/-- Away from the semicolon the rows have the same token, and the next ones face each other. -/
theorem shares (h : Separates source source' trace j) (hs : spot.Holds j i i')
    (hspot : spot ≠ .opening) : source'.lexeme i' = source.lexeme i ∧
      ∃ next : Spot, next.Holds j (source.next i) (source'.next i') := by
  have hj := h.lt_last
  have hlast := h.last
  have hfront : i < j → source'.lexeme i = source.lexeme i ∧
      ∃ next : Spot, next.Holds j (source.next i) (source'.next i) := by
    intro hi
    rw [Source.next_of_lt (show i < source.last by omega),
      Source.next_of_lt (show i < source'.last by omega)]
    exact ⟨h.front i hi, exists_holds hi⟩
  cases spot with
  | before =>
      obtain ⟨hi, rfl⟩ := hs
      exact hfront (by omega)
  | literal =>
      obtain ⟨hi, rfl⟩ := hs
      exact hfront (by omega)
  | opening => exact absurd rfl hspot
  | behind =>
      obtain ⟨hi, rfl⟩ := hs
      refine ⟨h.behind i hi, .behind, ?_, ?_⟩
      · rw [Source.next]
        omega
      · rw [Source.next, Source.next]
        omega

/-! ## Rules that pass the line break -/

theorem refuses_semicolons (h : Separates source source' trace j) :
    Refuses source (definitions trace) (Rule.atLeastOnce (.token .semicolon)) m j :=
  h.refuses_opening (by decide)

theorem matches_separator (h : Separates source source' trace j) :
    Matches source (definitions trace) separator true j j :=
  matches_orElse.2 (.inr ⟨h.refuses_semicolons, matches_lineBreak.2 ⟨rfl, h.line, rfl⟩⟩)

/-- One semicolon is all that is taken. -/
theorem matches_separator' (h : Separates source source' trace j) :
    Matches source' (definitions trace) separator m j (j + 1) := by
  have hnone : Refuses source' (definitions trace) (.token .semicolon) m (j + 1) := by
    rw [refuses_token, h.behind j (Nat.le_refl j)]
    exact fun hkind => absurd (hkind ▸ h.opening) (by decide)
  refine matches_orElse.2 (.inl (matches_pair.2 ⟨j + 1, ?_, hnone.matches_many⟩))
  exact matches_token.2 ⟨h.semicolon, h.next_eq.symm⟩

theorem refuses_suffix (h : Separates source source' trace j) :
    Refuses source (definitions trace) (postfixUnarySuffix trace) true j := by
  have hline : ∀ part : TokenRule, Refuses source (definitions trace) (onSameLine part) true j :=
    fun part => refuses_onSameLine.2 (.inl h.line)
  refine refuses_choice.2 ?_
  simp only [List.forall_mem_cons, hline, true_and]
  exact ⟨h.refuses_opening (by cases trace <;> decide),
    h.refuses_opening (by cases trace <;> decide), nofun⟩

theorem index_of_assignable (h : Separates source source' trace j)
    (hmatch : Matches source (definitions trace) (assignableSuffix trace) true j k) :
    Matches source (definitions trace) indexingSuffix true j k := by
  have htypes : Refuses source (definitions trace) (typeArguments trace) true j :=
    h.refuses_opening (by cases trace <;> decide)
  have hmember : Refuses source (definitions trace) (navigationSuffix trace) true j :=
    h.refuses_opening (by cases trace <;> decide)
  have hj := Nat.le_of_lt h.lt_last
  rcases matches_orElse.1 hmatch with htypes' | ⟨-, hmatch⟩
  · exact absurd htypes (htypes'.not_refuses hj)
  · rcases matches_orElse.1 hmatch with hindex | ⟨-, hmember'⟩
    · exact hindex
    · exact absurd hmember (hmember'.not_refuses hj)

theorem refuses_plainTarget (h : Separates source source' trace j) (hi : i + 1 = j) :
    Refuses source (definitions trace) plainTarget true i := by
  have hnext : source.next i = j := by
    rw [← hi]
    exact Source.next_of_lt (by have := h.lt_last; omega)
  apply Grammar.refuses_plainTarget h.marked (h.literal i hi)
  · rw [hnext]
    exact h.refuses_suffix
  · rw [hnext]
    exact fun k hmatch => h.index k (h.index_of_assignable hmatch)

theorem refuses_plainTarget' (h : Separates source source' trace j) (hi : i + 1 = j) :
    Refuses source' (definitions trace) plainTarget m i := by
  have hnext : source'.next i = j := by
    rw [← hi]
    exact Source.next_of_lt (by have := h.lt_last; have := h.last; omega)
  have hkind : (source'.lexeme i).kind ∈ literals := by
    rw [h.front i (by omega)]
    exact h.literal i hi
  apply Grammar.refuses_plainTarget h.marked' hkind
  · rw [hnext]
    exact h.refuses_semicolon (by cases trace <;> decide)
  · rw [hnext]
    intro k hmatch
    have hnone : Refuses source' (definitions trace) (assignableSuffix trace) m j :=
      h.refuses_semicolon (by cases trace <;> decide)
    exact absurd hnone (hmatch.not_refuses (by have := h.lt_last; have := h.last; omega))

/-- The rules that are excused do alike on both rows. -/
theorem mirrors_of_excused (h : Separates source source' trace j)
    (hd : Derives source (definitions trace) d rule m i o)
    (hcounts : CountsAt source trace j rule m i) (hs : spot.Holds j i i')
    (hexcused : excused spot rule = true) : Mirrors source' trace j rule m i' o := by
  have hj := h.lt_last
  cases spot with
  | before | behind => cases hexcused
  | literal =>
      obtain ⟨hi, rfl⟩ := hs
      rw [excused, Bool.or_eq_true, beq_iff_eq, beq_iff_eq] at hexcused
      rcases hexcused with rfl | rfl
      · obtain rfl := hcounts _ _ _ (.andThenFirst .here) (.inr rfl) (.inr hi)
        exact .of_refuses hd (by omega) (h.refuses_plainTarget hi) (h.refuses_plainTarget' hi)
      · -- line breaks count in front of the bracket, so that this is not attempted
        cases hcounts _ _ _ (.newlines .here) (.inr rfl) (.inr hi)
  | opening =>
      obtain ⟨rfl, rfl⟩ := hs
      rw [excused, Bool.or_eq_true, beq_iff_eq, Bool.and_eq_true, beq_iff_eq] at hexcused
      rcases hexcused with rfl | ⟨hline, hverdict⟩
      · obtain ⟨e, f, he⟩ := h.refuses_semicolons
        obtain rfl := hcounts _ _ _ (.orElseSecond he .here) (.inl rfl) (.inl rfl)
        have hnext : Spot.behind.Holds i' i' (i' + 1) := ⟨Nat.le_refl i', rfl⟩
        exact .of_matches hd (Nat.le_of_lt hj) h.matches_separator hnext h.matches_separator'
      · refine .of_refuses hd (Nat.le_of_lt hj) ?_ (h.refuses_semicolon hverdict)
        unfold isOnSameLine at hline
        split at hline
        case h_1 first second =>
          obtain rfl := eq_of_beq hline
          obtain rfl := hcounts _ _ _ (.andThenFirst (.notAhead .here)) (.inl rfl) (.inl rfl)
          exact refuses_andThen.2 (.inl (refuses_notAhead.2
            ⟨_, matches_lineBreak.2 ⟨rfl, h.line, rfl⟩⟩))
        case h_2 => cases hline

/-! ## All rules -/

/-- A rule ends behind the line break or where it says it may end. -/
theorem leadsTo_of_matches (h : Separates source source' trace j) (hi : i ≤ source.last)
    (hs : spot.Holds j i i') (hmatch : Matches source (definitions trace) rule m i k)
    (hmatch' : Matches source' (definitions trace) rule m i' k') (hnext : next.Holds j k k') :
    next = .behind ∨ leadsTo spot rule next = true := by
  have hj := h.lt_last
  have hlast := h.last
  obtain ⟨hik, hk⟩ := hmatch.bounds hi
  have hclose : i < j → k = j → endsAtLiteral (i + 1 == j) rule = true := by
    rintro hlt rfl
    obtain ⟨d, v, hd⟩ := hmatch
    exact endsAtLiteral_of_derives h.marked (Nat.le_of_lt hj) h.literal hd hlt rfl
  cases next with
  | behind => exact .inl rfl
  | before =>
      obtain ⟨hkj, -⟩ := hnext
      cases spot with
      | before => exact .inr rfl
      | literal | opening | behind => exact absurd hs.1 (by omega)
  | literal =>
      obtain ⟨hkj, -⟩ := hnext
      cases spot with
      | before | literal => exact .inr rfl
      | opening | behind => exact absurd hs.1 (by omega)
  | opening =>
      obtain ⟨hkj, rfl⟩ := hnext
      refine .inr ?_
      cases spot with
      | before =>
          have hends := hclose (by have := hs.1; omega) hkj
          rwa [beq_eq_false_iff_ne.2 (Nat.ne_of_lt hs.1)] at hends
      | literal =>
          have hends := hclose (by have := hs.1; omega) hkj
          rwa [beq_iff_eq.2 hs.1] at hends
      | opening =>
          obtain ⟨-, rfl⟩ := hs
          rw [leadsTo, Bool.not_eq_true', Bool.or_eq_false_iff, beq_eq_false_iff_ne]
          constructor
          · rw [Bool.eq_false_iff]
            intro htakes
            obtain ⟨d, v, hd⟩ := hmatch'
            exact Nat.lt_irrefl _ (lt_of_takes h.marked' hd (by omega) htakes _ rfl)
          · -- a separator would have taken the semicolon
            rintro rfl
            have hsame := hmatch'.unique h.matches_separator' (by omega)
            omega
      | behind =>
          obtain ⟨hle, rfl⟩ := hs
          have hbounds := hmatch'.bounds (by omega)
          omega

theorem isWord_eq (h : Separates source source' trace j) (hs : spot.Holds j i i') :
    (source'.lexeme i').isWord = (source.lexeme i).isWord := by
  by_cases hspot : spot = .opening
  · subst hspot
    obtain ⟨rfl, rfl⟩ := hs
    exact h.isWord_eq_false.2.trans h.isWord_eq_false.1.symm
  · rw [(h.shares hs hspot).1]

theorem ne_opening_of_isWord (h : Separates source source' trace j) (hs : spot.Holds j i i')
    (hword : (source.lexeme i).isWord = true) : spot ≠ .opening := by
  rintro rfl
  obtain ⟨rfl, -⟩ := hs
  cases hword.symm.trans h.isWord_eq_false.1

theorem mirrors_accept (h : Separates source source' trace j) (hs : spot.Holds j i i')
    (hspot : spot ≠ .opening)
    (hmatch : source'.lexeme i' = source.lexeme i →
      Matches source' (definitions trace) rule m i' (source'.next i')) :
    Mirrors source' trace j rule m i' (source.accept i) := by
  obtain ⟨hlexeme, next, hnext⟩ := h.shares hs hspot
  exact ⟨next, _, hnext, hmatch hlexeme⟩

/-- A rule that fits does on the longer row what it does on the shorter one. -/
theorem mirrors (h : Separates source source' trace j)
    (hd : Derives source (definitions trace) d rule m i o) :
    ∀ {spot i'}, i ≤ source.last → spot.Holds j i i' → fits spot rule = true →
      CountsAt source trace j rule m i → Mirrors source' trace j rule m i' o := by
  -- the spot stays general, as the first part of a sequence leads the second one to another spot
  induction hd with
  | @token kind _ i hkind =>
      intro spot i' hi hs hfits _
      have hspot : spot ≠ .opening := by
        rintro rfl
        obtain ⟨rfl, -⟩ := hs
        have hopening := h.opening
        rw [hkind] at hopening
        simp [fits, hopening] at hfits
      exact h.mirrors_accept hs hspot fun hlexeme => matches_token.2 ⟨hlexeme ▸ hkind, rfl⟩
  | noToken hkind =>
      intro spot i' hi hs hfits _
      refine refuses_token.2 ?_
      by_cases hspot : spot = .opening
      · subst hspot
        obtain ⟨-, rfl⟩ := hs
        rw [h.semicolon]
        rintro rfl
        cases hfits
      · rwa [(h.shares hs hspot).1]
  | word hword =>
      intro spot i' hi hs hfits _
      have hspot := h.ne_opening_of_isWord hs hword
      exact h.mirrors_accept hs hspot fun hlexeme => matches_word.2 ⟨hlexeme ▸ hword, rfl⟩
  | noWord hword =>
      intro spot i' hi hs hfits _
      exact refuses_word.2 ((h.isWord_eq hs).trans hword)
  | keyword hword =>
      intro spot i' hi hs hfits _
      have hspot := h.ne_opening_of_isWord hs hword.1
      exact h.mirrors_accept hs hspot fun hlexeme => matches_keyword.2 ⟨hlexeme ▸ hword, rfl⟩
  | noKeyword hword =>
      intro spot i' hi hs hfits _
      refine refuses_keyword.2 fun hword' => hword ?_
      have hspot := h.ne_opening_of_isWord hs ((h.isWord_eq hs).symm.trans hword'.1)
      rwa [(h.shares hs hspot).1] at hword'
  | nothing => exact fun _ hs _ _ => ⟨_, _, hs, matches_nothing.2 rfl⟩
  | andThen hfirst hsecond ihfirst ihsecond =>
      intro spot i' hi hs hfits hcounts
      rcases fits_andThen hfits with hexcused | ⟨hfits, hthen⟩
      · exact h.mirrors_of_excused (.andThen hfirst hsecond) hcounts hs hexcused
      · obtain ⟨next, k', hnext, hmatch⟩ := ihfirst hi hs hfits (hcounts.of .andThenFirst)
        have hleads := h.leadsTo_of_matches hi hs ⟨_, _, hfirst⟩ hmatch hnext
        obtain ⟨last, l', hlast, hmatch'⟩ := ihsecond (hfirst.bounds hi _ rfl).2 hnext
          (hthen next hleads) (hcounts.of (.andThenSecond hfirst))
        exact ⟨last, l', hlast, matches_andThen.2 ⟨k', hmatch, hmatch'⟩⟩
  | andThenFirst hfirst ih =>
      intro spot i' hi hs hfits hcounts
      rcases fits_andThen hfits with hexcused | ⟨hfits, -⟩
      · exact h.mirrors_of_excused (.andThenFirst hfirst) hcounts hs hexcused
      · exact refuses_andThen.2 (.inl (ih hi hs hfits (hcounts.of .andThenFirst)))
  | andThenSecond hfirst hsecond ihfirst ihsecond =>
      intro spot i' hi hs hfits hcounts
      rcases fits_andThen hfits with hexcused | ⟨hfits, hthen⟩
      · exact h.mirrors_of_excused (.andThenSecond hfirst hsecond) hcounts hs hexcused
      · obtain ⟨next, k', hnext, hmatch⟩ := ihfirst hi hs hfits (hcounts.of .andThenFirst)
        have hleads := h.leadsTo_of_matches hi hs ⟨_, _, hfirst⟩ hmatch hnext
        exact refuses_andThen.2 (.inr ⟨k', hmatch, ihsecond (hfirst.bounds hi _ rfl).2 hnext
          (hthen next hleads) (hcounts.of (.andThenSecond hfirst))⟩)
  | orElseFirst hfirst ih =>
      intro spot i' hi hs hfits hcounts
      rcases fits_orElse hfits with hexcused | ⟨hfits, -⟩
      · exact h.mirrors_of_excused (.orElseFirst hfirst) hcounts hs hexcused
      · obtain ⟨next, k', hnext, hmatch⟩ := ih hi hs hfits (hcounts.of .orElseFirst)
        exact ⟨next, k', hnext, matches_orElse.2 (.inl hmatch)⟩
  | orElseSecond hfirst hsecond ihfirst ihsecond =>
      intro spot i' hi hs hfits hcounts
      rcases fits_orElse hfits with hexcused | ⟨hfits, hfits'⟩
      · exact h.mirrors_of_excused (.orElseSecond hfirst hsecond) hcounts hs hexcused
      · have hnone := ihfirst hi hs hfits (hcounts.of .orElseFirst)
        obtain ⟨next, k', hnext, hmatch⟩ := ihsecond hi hs hfits'
          (hcounts.of (.orElseSecond hfirst))
        exact ⟨next, k', hnext, matches_orElse.2 (.inr ⟨hnone, hmatch⟩)⟩
  | orElseNeither hfirst hsecond ihfirst ihsecond =>
      intro spot i' hi hs hfits hcounts
      rcases fits_orElse hfits with hexcused | ⟨hfits, hfits'⟩
      · exact h.mirrors_of_excused (.orElseNeither hfirst hsecond) hcounts hs hexcused
      · exact refuses_orElse.2 ⟨ihfirst hi hs hfits (hcounts.of .orElseFirst),
          ihsecond hi hs hfits' (hcounts.of (.orElseSecond hfirst))⟩
  | optional _ ih =>
      intro spot i' hi hs hfits hcounts
      obtain ⟨next, k', hnext, hmatch⟩ := ih hi hs hfits (hcounts.of .optional)
      exact ⟨next, k', hnext, matches_optional.2 (.inl hmatch)⟩
  | optionalNone _ ih =>
      intro spot i' hi hs hfits hcounts
      have hnone := ih hi hs hfits (hcounts.of .optional)
      exact ⟨spot, i', hs, matches_optional.2 (.inr ⟨hnone, rfl⟩)⟩
  | manyNone _ ih =>
      intro spot i' hi hs hfits hcounts
      have hnone := ih hi hs (fits_many hfits).1 (hcounts.of .many)
      exact ⟨spot, i', hs, hnone.matches_many⟩
  | @manyIdle part m i d v hpart ih =>
      intro spot i' hi hs hfits hcounts
      have hcounts' : CountsAt source trace j part m i := hcounts.of .many
      obtain ⟨next, k', hnext, hmatch⟩ := ih hi hs (fits_many hfits).1 hcounts'
      by_cases hk : k' = i'
      · subst hk
        exact ⟨spot, k', hs, matches_many.2 (.inl ⟨.inr hmatch, rfl⟩)⟩
      · -- the semicolon is taken in the place of the line break, and then nothing more
        have hlast := h.last
        obtain ⟨hi', hle⟩ := hs.bounds
        have hbounds := hmatch.bounds (by omega)
        obtain ⟨rfl, rfl⟩ : next = .behind ∧ k' = i + 1 := hnext.eq_behind (by omega)
        obtain ⟨last, l', hlast', hmatch'⟩ := ih hi hnext fits_behind hcounts'
        have hbounds' := hmatch'.bounds (by omega)
        obtain rfl : l' = i + 1 := by
          have := hlast'.bounds
          omega
        have hrest := matches_many.2 (.inl ⟨.inr hmatch', rfl⟩)
        exact ⟨.behind, i + 1, hnext, hmatch.matches_many hk hrest⟩
  | @manyMore part m i k l d e v w hpart hne hrest ihpart ihrest =>
      intro spot i' hi hs hfits hcounts
      obtain ⟨next, k', hnext, hmatch⟩ := ihpart hi hs (fits_many hfits).1 (hcounts.of .many)
      have hleads := h.leadsTo_of_matches hi hs ⟨_, _, hpart⟩ hmatch hnext
      obtain ⟨last, l', hlast, hmatch'⟩ := ihrest (hpart.bounds hi _ rfl).2 hnext
        (fits_many_next hfits hleads) (hcounts.of (.manyMore hpart hne))
      have hne' : k' ≠ i' := by
        have hik := (hpart.bounds hi _ rfl).1
        have hlt := hs.lt hnext (Nat.lt_of_le_of_ne hik (Ne.symm hne))
        exact Nat.ne_of_gt hlt
      exact ⟨last, l', hlast, hmatch.matches_many hne' hmatch'⟩
  | ahead _ ih =>
      intro spot i' hi hs hfits hcounts
      obtain ⟨next, k', hnext, hmatch⟩ := ih hi hs hfits (hcounts.of .ahead)
      exact ⟨spot, i', hs, matches_ahead.2 ⟨⟨k', hmatch⟩, rfl⟩⟩
  | aheadNone _ ih =>
      intro spot i' hi hs hfits hcounts
      exact refuses_ahead.2 (ih hi hs hfits (hcounts.of .ahead))
  | notAhead _ ih =>
      intro spot i' hi hs hfits hcounts
      have hnone := ih hi hs hfits (hcounts.of .notAhead)
      exact ⟨spot, i', hs, matches_notAhead.2 ⟨hnone, rfl⟩⟩
  | notAheadSome _ ih =>
      intro spot i' hi hs hfits hcounts
      obtain ⟨next, k', -, hmatch⟩ := ih hi hs hfits (hcounts.of .notAhead)
      exact refuses_notAhead.2 ⟨k', hmatch⟩
  | lineBreak hline =>
      intro spot i' hi hs hfits _
      have hlexeme := (h.shares hs (by simpa [fits] using hfits)).1
      exact ⟨spot, i', hs, matches_lineBreak.2 ⟨rfl, hlexeme ▸ hline, rfl⟩⟩
  | noLineBreak hline =>
      intro spot i' hi hs hfits _
      have hlexeme := (h.shares hs (by simpa [fits] using hfits)).1
      exact refuses_lineBreak.2 (hlexeme ▸ hline)
  | newlines hpart ih =>
      intro spot i' hi hs hfits hcounts
      rw [fits, Bool.or_eq_true] at hfits
      rcases hfits with hexcused | hfits
      · exact h.mirrors_of_excused (.newlines hpart) hcounts hs hexcused
      · exact (ih hi hs hfits (hcounts.of .newlines)).imp
          (fun _ => matches_newlines.2) refuses_newlines.2
  | fail hreason => exact fun _ _ _ _ => refuses_fail hreason
  | traced _ ih =>
      intro spot i' hi hs hfits hcounts
      exact (ih hi hs hfits (hcounts.of .traced)).imp (fun _ => matches_traced.2) refuses_traced.2
  | ref hbody _ ih =>
      intro spot i' hi hs hfits hcounts
      -- `fits` does not look behind a name, but all bodies fit wherever their rules do
      obtain ⟨nonterminal, rfl, rfl⟩ := exists_of_body? hbody
      have hbody' := ih hi hs (fits_body nonterminal spot trace hfits) (hcounts.of (.ref hbody))
      exact hbody'.imp (fun _ => (matches_ref hbody).2) (refuses_ref hbody).2
  | any =>
      intro spot i' hi hs hfits _
      exact h.mirrors_accept hs (by simpa [fits] using hfits) fun _ => ⟨0, _, .any⟩
  | failNext hreason => exact fun _ _ _ _ => ⟨0, _, .failNext hreason⟩
  | endPoint _ ih =>
      intro spot i' hi hs hfits hcounts
      obtain ⟨next, k', hnext, d, v, hmatch⟩ := ih hi hs hfits (hcounts.of .endPoint)
      exact ⟨next, k', hnext, d, _, .endPoint hmatch⟩
  | endPointNone _ ih =>
      intro spot i' hi hs hfits hcounts
      obtain ⟨d, f, hnone⟩ := ih hi hs hfits (hcounts.of .endPoint)
      exact ⟨d, f, .endPointNone hnone⟩

end Separates
end Grammar
end AnnotationScan
