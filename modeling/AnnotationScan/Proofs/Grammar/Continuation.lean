import AnnotationScan.Proofs.Grammar.Nesting

/-!
# Sources that go on

One source goes on where another one ends, at its end marker.  A rule is steady at a token if it
takes the same decisions there on both sources, under one limit and with a memo each.
-/

namespace AnnotationScan

open Peg

namespace Peg.Source

/-- The second source has the tokens of the first one in front of its end marker, and more. -/
structure Continues (source source' : Source TokenKind) : Prop where
  marked : source.Marked
  last_le : source.last ≤ source'.last
  lexeme : ∀ i < source.last, source.lexeme i = source'.lexeme i

variable {source source' : Source TokenKind}

theorem Continues.next (h : source.Continues source') {i : Nat} (hi : i < source.last) :
    source.next i = source'.next i := by
  have hlast := h.last_le
  rw [Source.next, Source.next, Nat.min_eq_left hi, Nat.min_eq_left (by omega)]

theorem Continues.spanFrom (h : source.Continues source') {i j : Nat} (hij : i < j)
    (hj : j ≤ source.last) : source.spanFrom i j = source'.spanFrom i j := by
  have hji := Nat.not_le_of_lt hij
  rw [Source.spanFrom, Source.spanFrom, if_neg hji, if_neg hji, h.lexeme i (by omega),
    h.lexeme (j - 1) (by omega)]

theorem Continues.alike (h : source.Continues source') {i : Nat} (hi : i < source.last)
    (part : Grammar.TokenRule) (count : Bool) : source.Alike source' part count i := by
  have hlexeme := h.lexeme i hi
  have hlast := h.last_le
  exact ⟨by omega, h.next hi, by rw [hlexeme], by rw [hlexeme], fun _ _ _ => by rw [hlexeme],
    fun _ _ => by rw [hlexeme]⟩

/-- Attempts in front of a bracket that closes an outer one see the same tokens. -/
theorem Continues.alikeFor (h : source.Continues source') {trace types : Bool}
    {after inner : List Bracket} {rule : Grammar.TokenRule} (hn : Grammar.Nests types [] rule after)
    {i n : Nat} (hnesting : source.nesting types [] i n = some inner)
    (hstuck : Bracket.read types inner (source.lexeme (i + n)).kind = none)
    (hlt : i + n < source.last) (m : Bool) :
    source.AlikeFor source' (Grammar.definitions trace) rule m i := by
  intro part count place hv
  have hi : i ≤ source.last := by omega
  obtain ⟨inner', hinner⟩ := hn.nesting_of_visits h.marked hv hi
  have hle := Source.nesting_le hnesting hstuck hinner
  have hbounds := hv.bounds hi
  exact h.alike (by omega) part count

end Peg.Source

namespace Grammar

variable {source source' : Source TokenKind} {trace : Bool} {limit : Nat}

/-- A rule takes the same decisions at a token on two sources. -/
def Steady (source source' : Source TokenKind) (trace : Bool) (limit : Nat) (rule : TokenRule)
    (i : Nat) : Prop :=
  ∀ mode s t, mode.newlines = true →
    (Likeness.loose source source').Shared (definitions trace) s t →
    (Likeness.loose source source').Agree (fun _ => False)
      ((Likeness.loose source source').Shared (definitions trace))
      (rule.run source 0 ((definitions trace).invoke source limit limit) mode i s)
      (rule.run source' 0 ((definitions trace).invoke source' limit limit) mode i t)

theorem derives_of_run {rule : TokenRule} {mode : Mode} {i j : Nat} {s s' : State} {v : Span}
    (hi : i ≤ source.last) (hs : s.Truthful source (definitions trace))
    (h : rule.run source 0 ((definitions trace).invoke source limit limit) mode i s =
      (.matched v j, s')) :
    ∃ d, Derives source (definitions trace) d rule mode.newlines i (.matched v j) := by
  have hsound := rule.run_invoke_sound source (definitions trace) limit limit 0 mode i s hi hs
  rw [h] at hsound
  exact hsound.2

namespace Steady

variable {i : Nat}

theorem of_alikeFor {rule : TokenRule} (hi : i ≤ source.last)
    (h : source.AlikeFor source' (definitions trace) rule true i) :
    Steady source source' trace limit rule i := by
  intro mode s t hmode hS
  exact (Likeness.loose source source').run_invoke_inStep (fun _ => False) limit limit
    (Nat.le_refl limit) (.inr ⟨rfl, rfl⟩) 0 0 rule mode i s t hi hS (hmode ▸ h)

theorem andThen {first second : TokenRule} (hi : i ≤ source.last)
    (hfirst : Steady source source' trace limit first i)
    (hsecond : ∀ d v j, Derives source (definitions trace) d first true i (.matched v j) →
      Steady source source' trace limit second j) :
    Steady source source' trace limit (.andThen first second) i := by
  intro mode s t hmode hS
  refine (Likeness.loose source source').agree_andThen (hfirst mode s t hmode hS)
    fun v j s' t' hx hS' => ?_
  obtain ⟨d, hd⟩ := derives_of_run hi hS.truthful hx
  exact hsecond d v j (hmode ▸ hd) mode s' t' hmode hS'

theorem orElse {first second : TokenRule} (hfirst : Steady source source' trace limit first i)
    (hsecond : Steady source source' trace limit second i) :
    Steady source source' trace limit (.orElse first second) i := by
  intro mode s t hmode hS
  exact (Likeness.loose source source').agree_orElse (hfirst mode s t hmode hS)
    fun _ s' t' _ hS' => hsecond mode s' t' hmode hS'

theorem optional {part : TokenRule} (h : Steady source source' trace limit part i) :
    Steady source source' trace limit (.optional part) i := by
  intro mode s t hmode hS
  exact (Likeness.loose source source').agree_optional (h mode s t hmode hS)

theorem notAhead {part : TokenRule} (hi : i ≤ source.last)
    (h : Steady source source' trace limit part i)
    (hkind : ∀ d v j, Derives source (definitions trace) d part true i (.matched v j) →
      (source.lexeme i).kind = (source'.lexeme i).kind) :
    Steady source source' trace limit (.notAhead part) i := by
  intro mode s t hmode hS
  refine (Likeness.loose source source').agree_notAhead (Likeness.shared_keeps _)
    (h { mode with quiet := true } s t hmode hS) fun v j s' hx => ?_
  obtain ⟨d, hd⟩ := derives_of_run hi hS.truthful hx
  exact hkind d v j (hmode ▸ hd)

theorem many {part : TokenRule} (good : Nat → Prop)
    (hle : ∀ j, good j → j ≤ source.last ∧ j ≤ source'.last)
    (hpart : ∀ j, good j → Steady source source' trace limit part j)
    (hgood : ∀ j d v k, good j → Derives source (definitions trace) d part true j (.matched v k) →
      k ≠ j → good k) (hi : good i) :
    Steady source source' trace limit (.many part) i := by
  intro mode s t hmode hS
  refine (Likeness.loose source source').agree_repeated i good
    (fun j s t hj hS => hpart j hj mode s t hmode hS) (fun j s t v k s' hj hS hx hne => ?_) _ _ i s t
    (Nat.lt_succ_self _) (Nat.lt_succ_self _) hi hS
  obtain ⟨d, hd⟩ := derives_of_run (hle j hj).1 hS.truthful hx
  have hk := hgood j d v k hj (hmode ▸ hd) hne
  have hbounds := hd.bounds (hle j hj).1 k rfl
  exact ⟨by omega, (hle k hk).1, (hle k hk).2, hk⟩

theorem named {name : String} {part : TokenRule} (h : Steady source source' trace limit part i) :
    Steady source source' trace limit (Grammar.named trace name part) i := by
  intro mode s t hmode hS
  unfold Grammar.named
  split
  · exact (Likeness.loose source source').agree_traced (Likeness.shared_keeps _)
      (h mode s t hmode hS)
  · exact h mode s t hmode hS

theorem nothing : Steady source source' trace limit .nothing i :=
  fun _ _ _ _ hS => .inr ⟨(Likeness.loose source source').outcome_point i, hS⟩

theorem token (h : source.Continues source') (hi : i < source.last) (kind : TokenKind) :
    Steady source source' trace limit (.token kind) i := by
  apply of_alikeFor (Nat.le_of_lt hi)
  rintro part count place ⟨⟩
  exact h.alike hi _ _

theorem word (h : source.Continues source') (hi : i < source.last) :
    Steady source source' trace limit .word i := by
  apply of_alikeFor (Nat.le_of_lt hi)
  rintro part count place ⟨⟩
  exact h.alike hi _ _

theorem keyword (h : source.Continues source') (hi : i < source.last) (text : String) :
    Steady source source' trace limit (.keyword text) i := by
  apply of_alikeFor (Nat.le_of_lt hi)
  rintro part count place ⟨⟩
  exact h.alike hi _ _

theorem lineBreak (h : source.Continues source') (hi : i < source.last) :
    Steady source source' trace limit .lineBreak i := by
  apply of_alikeFor (Nat.le_of_lt hi)
  rintro part count place ⟨⟩
  exact h.alike hi _ _

theorem token_last (h : source.Continues source') {kind : TokenKind} (hend : kind ≠ .endOfInput)
    (hkind : (source'.lexeme source.last).kind ≠ kind) :
    Steady source source' trace limit (.token kind) source.last := by
  intro mode s t _ hS
  have hmarker : (source.lexeme source.last).kind ≠ kind := by
    rw [source.lexeme_of_last_le (Nat.le_refl _), h.marked.marker]
    exact hend.symm
  exact (Likeness.loose source source').agree_token (Likeness.shared_keeps _)
    ⟨fun hk => absurd hk hmarker, fun hk => absurd hk hkind⟩ (fun hk => absurd hk hmarker) hS

theorem choice {rules : List TokenRule} (h : ∀ rule ∈ rules, Steady source source' trace limit rule i) :
    Steady source source' trace limit (Rule.choice rules) i := by
  induction rules with
  | nil =>
      exact fun mode _ _ _ hS =>
        (Likeness.loose source source').agree_fail (Likeness.shared_keeps _) _ mode i hS
  | cons rule rules ih =>
      have hrule := h rule List.mem_cons_self
      cases rules with
      | nil => exact hrule
      | cons next rules => exact orElse hrule (ih fun r hr => h r (List.mem_cons_of_mem rule hr))

end Steady
end Grammar
end AnnotationScan
