import Mathlib.Data.List.Perm.Subperm
import Mathlib.Data.List.ProdSigma
import Mathlib.Data.Nat.Find
import AnnotationScan.Proofs.Peg.Calls

/-!
# How often bodies are run

The result of a recursive rule is stored when its body is done.  Meanwhile the body might call the
same rule at the same token, but then it never comes to an end: what is called is derived with less
nesting than what calls it.  So in a parse that ends no result is stored twice, and a name under
which only one body is traced is logged once for each result of that rule.
-/

namespace AnnotationScan.Peg

theorem Memo.keys_insert_perm {memo : Memo} {key : Application} (h : key ∉ memo) (o : Outcome) :
    (memo.insert key o).keys.Perm (key :: memo.keys) := by
  rw [List.perm_ext_iff_of_nodup Std.TreeMap.nodup_keys
    (List.nodup_cons.2 ⟨fun hmem => h (Std.TreeMap.mem_keys.1 hmem), Std.TreeMap.nodup_keys⟩)]
  intro key'
  rw [List.mem_cons, Std.TreeMap.mem_keys, Std.TreeMap.mem_keys, Std.TreeMap.mem_insert,
    Std.LawfulEqCmp.compare_eq_iff_eq, eq_comm]

/-- The log tells of a name as often as the memo of a recursive rule, at the bytes that `place`
picks. -/
def State.Balanced {κ : Type} (source : Source κ) (scope r : Nat) (name : String)
    (place : Nat → Bool) (s : State) : Prop :=
  ∃ events, s.log = some events ∧
    events.countP (fun event => event.rule == name && place event.offset) =
      s.memo.keys.countP fun key =>
        key.scope == scope && key.rule == r && place (source.offset key.index)

namespace State.Balanced

variable {κ : Type} {source : Source κ} {scope r : Nat} {name : String} {place : Nat → Bool}
  {s : State}

theorem note (h : s.Balanced source scope r name place) (f : Failure) :
    (s.note f).Balanced source scope r name place := by
  have hlog : (s.note f).log = s.log := by
    unfold State.note
    split
    · rfl
    · split <;> rfl
  unfold Balanced
  rwa [hlog, memo_note]

theorem observe (h : s.Balanced source scope r name place) {e : Event} (he : e.rule ≠ name) :
    (s.observe e).Balanced source scope r name place := by
  obtain ⟨events, hlog, hcount⟩ := h
  refine ⟨e :: events, congrArg (Option.map _) hlog, ?_⟩
  rw [List.countP_cons_of_neg (by simp [he]), memo_observe, hcount]

theorem remember (h : s.Balanced source scope r name place) {key : Application} {o : Outcome}
    (ho : o.isDecided = true) (hkey : key ∉ s.memo) (hrule : key.rule ≠ r) :
    (s.remember key o).Balanced source scope r name place := by
  obtain ⟨events, hlog, hcount⟩ := h
  refine ⟨events, ?_, ?_⟩
  · cases o <;> exact hlog
  · rw [memo_remember ho, (Memo.keys_insert_perm hkey o).countP_eq,
      List.countP_cons_of_neg (by simp [hrule]), hcount]

theorem observe_remember (h : s.Balanced source scope r name place) {i depth : Nat} {mode : Mode}
    {stop : Option Nat} {o : Outcome} (ho : o.isDecided = true)
    (hkey : (⟨scope, r, i, mode⟩ : Application) ∉ s.memo) :
    ((s.observe ⟨name, depth, source.offset i, stop⟩).remember ⟨scope, r, i, mode⟩ o).Balanced
      source scope r name place := by
  obtain ⟨events, hlog, hcount⟩ := h
  refine ⟨⟨name, depth, source.offset i, stop⟩ :: events, ?_, ?_⟩
  · cases o <;> exact congrArg (Option.map _) hlog
  · rw [memo_remember ho, memo_observe, (Memo.keys_insert_perm hkey o).countP_eq,
      List.countP_cons, List.countP_cons, hcount]
    simp

theorem countP_drained (h : s.Balanced source scope r name place) :
    (s.log.getD []).reverse.countP (fun event => event.rule == name && place event.offset) =
      s.memo.keys.countP fun key =>
        key.scope == scope && key.rule == r && place (source.offset key.index) := by
  obtain ⟨events, hlog, hcount⟩ := h
  rw [hlog, Option.getD_some, List.countP_reverse, hcount]

end State.Balanced

variable {κ : Type} [Describe κ] {source : Source κ} {definitions : Definitions κ}

/-- The recursive rule is derived with so much nesting or less. -/
def Within (source : Source κ) (definitions : Definitions κ) (nesting r : Nat) (mode : Mode)
    (index : Nat) : Prop :=
  ∃ d ≤ nesting, ∃ o, Derives source definitions d (.ref r) mode.newlines index o

theorem Within.mono {d e r i : Nat} {mode : Mode} (h : Within source definitions d r mode i)
    (hle : d ≤ e) : Within source definitions e r mode i := by
  obtain ⟨d', hd', hderives⟩ := h
  exact ⟨d', Nat.le_trans hd' hle, hderives⟩

/-- What is called while a rule is applied is derived with as little nesting as the rule. -/
theorem Calls.within [DecidableEq κ] {r j i : Nat} {mode' mode : Mode} {rule : Rule κ}
    (h : Calls source definitions r mode' j rule mode i) (hi : i ≤ source.last) :
    ∀ {d o}, Derives source definitions d rule mode.newlines i o →
      Within source definitions d r mode' j := by
  -- derivations are unique, so the given one passes the parts on the way to the call
  induction h with
  | here => exact fun hd => ⟨_, Nat.le_refl _, _, hd⟩
  | andThenFirst _ ih =>
      intro d o hd
      cases hd with
      | andThen hfirst _ | andThenSecond hfirst _ => exact (ih hi hfirst).mono (Nat.le_max_left _ _)
      | andThenFirst hfirst => exact ih hi hfirst
  | andThenSecond hfirst _ ih =>
      intro d o hd
      have hk := (hfirst.bounds hi _ rfl).2
      cases hd with
      | andThen hfirst' hsecond | andThenSecond hfirst' hsecond =>
          cases hfirst.unique hfirst' hi
          exact (ih hk hsecond).mono (Nat.le_max_right _ _)
      | andThenFirst hfirst' => cases hfirst.unique hfirst' hi
  | orElseFirst _ ih =>
      intro d o hd
      cases hd with
      | orElseFirst hfirst => exact ih hi hfirst
      | orElseSecond hfirst _ | orElseNeither hfirst _ =>
          exact (ih hi hfirst).mono (Nat.le_max_left _ _)
  | orElseSecond hfirst _ ih =>
      intro d o hd
      cases hd with
      | orElseFirst hfirst' => cases hfirst.unique hfirst' hi
      | orElseSecond _ hsecond | orElseNeither _ hsecond =>
          exact (ih hi hsecond).mono (Nat.le_max_right _ _)
  | many _ ih =>
      intro d o hd
      cases hd with
      | manyNone hpart | manyIdle hpart => exact ih hi hpart
      | manyMore hpart _ _ => exact (ih hi hpart).mono (Nat.le_max_left _ _)
  | manyMore hpart hne _ ih =>
      intro d o hd
      have hk := (hpart.bounds hi _ rfl).2
      cases hd with
      | manyNone hpart' => cases hpart.unique hpart' hi
      | manyIdle hpart' =>
          cases hpart.unique hpart' hi
          exact absurd rfl hne
      | manyMore hpart' _ hrest =>
          cases hpart.unique hpart' hi
          exact (ih hk hrest).mono (Nat.le_max_right _ _)
  | optional _ ih | ahead _ ih | notAhead _ ih | newlines _ ih | endPoint _ ih | traced _ ih =>
      intro d o hd
      cases hd <;> exact ih hi ‹_›

theorem State.mem_remember {s : State} {key key' : Application} {o : Outcome}
    (h : key' ∈ (s.remember key o).memo) : key' = key ∨ key' ∈ s.memo := by
  cases ho : o.isDecided with
  | false =>
      rw [remember_of_not_isDecided ho] at h
      exact .inr h
  | true =>
      rw [memo_remember ho, Std.TreeMap.mem_insert, Std.LawfulEqCmp.compare_eq_iff_eq] at h
      exact h.imp Eq.symm id

namespace Definitions

variable [DecidableEq κ]

theorem keeps_within (source : Source κ) (definitions : Definitions κ) (limit nesting : Nat)
    (memo : Memo) :
    definitions.Keeps source limit (fun _ => Within source definitions nesting) (fun _ => True)
      fun s => ∀ key ∈ s.memo,
        key ∈ memo ∨ Within source definitions nesting key.rule key.mode key.index where
  note s f _ hs := by rwa [State.memo_note]
  observe _ _ hs := hs
  remember _ r mode i s o hr hs key hkey := by
    rcases State.mem_remember hkey with rfl | hmem
    · exact .inr hr
    · exact hs key hmem
  undefined _ _ _ _ _ _ _ := trivial
  limited _ _ _ _ _ _ := trivial
  fatal _ _ _ _ _ _ _ _ _ _ := trivial
  calls levels r mode i body hr hbody hi r' mode' j hcall := by
    obtain ⟨d, hle, o, hd⟩ := hr
    cases hd with
    | ref hbody' hd =>
        cases hbody.symm.trans hbody'
        exact (hcall.within hi hd).mono (Nat.le_of_succ_le hle)

/-- A body that comes to an end does not store a result under the key it is run for. -/
theorem notMem_run_body {limit levels depth r i : Nat} {mode : Mode} {s : State} {body : Rule κ}
    (hbody : definitions.body? r = some body) (hi : i ≤ source.last)
    (hs : s.Truthful source definitions)
    (hkey : (⟨definitions.scope, r, i, mode⟩ : Application) ∉ s.memo) :
    let x := body.run source depth (definitions.invoke source limit levels) mode i s
    x.1.isDecided = true → (⟨definitions.scope, r, i, mode⟩ : Application) ∉ x.2.memo := by
  classical
  intro x hdecided hmem
  have hexplained := (body.run_invoke_sound source definitions limit levels depth mode i s hi hs).2
  obtain ⟨d, hd⟩ := hexplained.derives hdecided
  have hnesting : ∃ n, Within source definitions n r mode i :=
    ⟨d + 1, d + 1, Nat.le_refl _, _, .ref hbody hd⟩
  -- of all the derivations one with the least nesting; what it is made of needs less
  obtain ⟨least, hleast, o, hderives⟩ := Nat.find_spec hnesting
  cases hderives with
  | @ref _ _ _ _ e _ hbody' hderives =>
      cases hbody.symm.trans hbody'
      have hrun := (keeps_within source definitions limit e s.memo).run_proceeds
        ((keeps_within source definitions limit e s.memo).invoke_proceeds levels) depth body
        (fun _ _ _ => trivial) mode hi (fun r' mode' j hcall => hcall.within hi hderives)
        ⟨hs, fun key hmem => .inl hmem⟩
      rcases (hrun.of_isDecided hdecided).2 _ hmem with hold | hwithin
      · exact hkey hold
      · exact Nat.find_min hnesting (Nat.lt_of_succ_le hleast) hwithin

/-- The body of a recursive rule is traced under a name that no other part of the rules has. -/
structure TracesAlone (definitions : Definitions κ) (r : Nat) (name : String) : Prop where
  body : ∃ inner, definitions.body? r = some (.traced name inner) ∧
    inner.has (Rule.isTracedAs name) = false
  others : ∀ r' body, r' ≠ r → definitions.body? r' = some body →
    body.has (Rule.isTracedAs name) = false

end Definitions

namespace Definitions.TracesAlone

variable [DecidableEq κ] {r : Nat} {name : String}

theorem run_balanced (place : Nat → Bool) {limit levels : Nat}
    (hinvoke : ∀ r' mode i s, i ≤ source.last →
      s.Truthful source definitions ∧ s.Balanced source definitions.scope r name place →
      Proceeds (fun _ => True)
        (fun s => s.Truthful source definitions ∧ s.Balanced source definitions.scope r name place)
        (definitions.invoke source limit levels r' mode i s))
    (depth : Nat) {rule : Rule κ} (hrule : rule.has (Rule.isTracedAs name) = false) (mode : Mode)
    {i : Nat} {s : State} (hi : i ≤ source.last)
    (hs : s.Truthful source definitions ∧ s.Balanced source definitions.scope r name place) :
    Proceeds (fun _ => True)
      (fun s => s.Truthful source definitions ∧ s.Balanced source definitions.scope r name place)
      (rule.run source depth (definitions.invoke source limit levels) mode i s) := by
  apply Rule.run_proceeds depth
  · intro rule mode i s hi hs
    exact (rule.run_invoke_sound source definitions limit levels depth mode i s hi hs.1).2
  · exact fun s f _ hs => ⟨hs.1.note f, hs.2.note f⟩
  · refine ⟨fun s e he hs => ⟨hs.1.observe e, hs.2.observe ?_⟩, fun _ _ _ => trivial⟩
    rintro rfl
    cases hrule.symm.trans he
  · exact hi
  · exact hs
  · exact fun r' mode' j t hcall ht => hinvoke r' mode' j t (hcall.bounds hi).2 ht

theorem invoke_balanced (h : definitions.TracesAlone r name) (source : Source κ)
    (place : Nat → Bool) (limit levels : Nat) :
    ∀ r' mode i s, i ≤ source.last →
      s.Truthful source definitions ∧ s.Balanced source definitions.scope r name place →
      Proceeds (fun _ => True)
        (fun s => s.Truthful source definitions ∧ s.Balanced source definitions.scope r name place)
        (definitions.invoke source limit levels r' mode i s) := by
  induction levels with
  | zero =>
      intro r' mode i s hi hs
      apply Definitions.proceeds_invoke hi hs.1 hs
      · exact fun _ _ => trivial
      · exact fun _ _ _ => trivial
      · exact fun _ _ _ hlevels => nomatch hlevels
  | succ levels ih =>
      intro r' mode i s hi hs
      apply Definitions.proceeds_invoke hi hs.1 hs
      · exact fun _ _ => trivial
      · exact fun _ _ _ => trivial
      rintro body _ hbody ⟨⟩ hkey x
      have hfresh : x.1.isDecided = true → _ ∉ x.2.memo := notMem_run_body hbody hi hs.1 hkey
      have hsound := body.run_invoke_sound source definitions limit levels (limit - levels) mode i s
        hi hs.1
      have htruthful : (x.2.remember ⟨definitions.scope, r', i, mode⟩ x.1).Truthful source
          definitions := hsound.1.remember (hsound.2.ref hbody)
      by_cases hr : r' = r
      · subst hr
        obtain ⟨inner, hinner, halone⟩ := h.body
        obtain rfl := Option.some.inj (hbody.symm.trans hinner)
        rcases run_balanced place ih (limit - levels) halone mode hi hs with
          ⟨cause, hcause, -⟩ | ⟨hdecided, -, hbalanced⟩
        · exact .inl ⟨cause, hcause, trivial⟩
        · refine .inr ⟨hdecided, htruthful, ?_⟩
          exact hbalanced.observe_remember hdecided (hfresh hdecided)
      · rcases run_balanced place ih (limit - levels) (h.others r' body hr hbody) mode hi hs with
          ⟨cause, hcause, -⟩ | ⟨hdecided, -, hbalanced⟩
        · exact .inl ⟨cause, hcause, trivial⟩
        · exact .inr ⟨hdecided, htruthful, hbalanced.remember hdecided (hfresh hdecided) hr⟩

end Definitions.TracesAlone

omit [Describe κ] in
theorem Memo.countP_keys_le {memo : Memo} {modes : List Mode}
    (h : ∀ key ∈ memo, key.index ≤ source.last ∧ key.mode ∈ modes) (scope r : Nat)
    (place : Nat → Bool) :
    memo.keys.countP (fun key =>
        key.scope == scope && key.rule == r && place (source.offset key.index)) ≤
      modes.length * (List.range source.size).countP fun i => place (source.offset i) := by
  rw [List.countP_eq_length_filter, List.countP_eq_length_filter, ← List.length_product,
    ← List.length_map fun pair : Mode × Nat => (⟨scope, r, pair.2, pair.1⟩ : Application)]
  apply List.Subperm.length_le
  apply List.Nodup.subperm (Std.TreeMap.nodup_keys.filter _)
  intro key hkey
  simp only [List.mem_filter, Bool.and_eq_true, beq_iff_eq, Std.TreeMap.mem_keys] at hkey
  obtain ⟨hmem, ⟨rfl, rfl⟩, hplace⟩ := hkey
  obtain ⟨hindex, hmode⟩ := h key hmem
  apply List.mem_map.2
  refine ⟨(key.mode, key.index), List.pair_mem_product.2 ⟨hmode, ?_⟩, rfl⟩
  apply List.mem_filter.2
  exact ⟨List.mem_range.2 (Nat.lt_succ_of_le hindex), hplace⟩

/-- Rules that are applied in some modes call rules in these modes only. -/
def Rule.StaysIn (source : Source κ) (definitions : Definitions κ) (modes : List Mode)
    (rule : Rule κ) : Prop :=
  ∀ r mode' j mode i, mode ∈ modes → Calls source definitions r mode' j rule mode i → mode' ∈ modes

def Mode.all : List Mode := [⟨true, false⟩, ⟨false, false⟩, ⟨true, true⟩, ⟨false, true⟩]

/-- The modes of calls that are made outside of negative lookahead. -/
def Mode.loud : List Mode := [⟨true, false⟩, ⟨false, false⟩]

theorem Mode.mem_all (mode : Mode) : mode ∈ Mode.all := by
  obtain ⟨newlines, quiet⟩ := mode
  cases newlines <;> cases quiet <;> decide

theorem Mode.mem_loud {mode : Mode} : mode ∈ Mode.loud ↔ mode.quiet = false := by
  obtain ⟨newlines, quiet⟩ := mode
  cases newlines <;> cases quiet <;> decide

namespace Rule

def isRef : Rule κ → Bool
  | .ref _ => true
  | _ => false

/-- The rule is a negative lookahead that calls a recursive rule. -/
def hidesCalls : Rule κ → Bool
  | .notAhead part => part.has isRef
  | _ => false

end Rule

theorem Calls.has_isRef {r j i : Nat} {mode' mode : Mode} {rule : Rule κ}
    (h : Calls source definitions r mode' j rule mode i) : rule.has Rule.isRef = true := by
  induction h with
  | here => rfl
  | manyMore _ _ _ ih => exact ih
  | _ => simp_all [Rule.has]

theorem Calls.quiet_eq {r j i : Nat} {mode' mode : Mode} {rule : Rule κ}
    (h : Calls source definitions r mode' j rule mode i) :
    rule.has Rule.hidesCalls = false → mode'.quiet = mode.quiet := by
  induction h with
  | here => exact fun _ => rfl
  | andThenFirst _ ih | andThenSecond _ _ ih | orElseFirst _ ih | orElseSecond _ _ ih =>
      intro hloud
      simp only [Rule.has, Rule.hidesCalls, Bool.or_eq_false_iff] at hloud
      simp [ih, hloud]
  | optional _ ih | many _ ih | ahead _ ih | newlines _ ih | endPoint _ ih | traced _ ih =>
      exact ih
  | manyMore _ _ _ ih => exact ih
  | notAhead hcall _ =>
      intro hloud
      simp only [Rule.has, Rule.hidesCalls, hcall.has_isRef, Bool.true_or] at hloud
      cases hloud

theorem Rule.staysIn_all (rule : Rule κ) : rule.StaysIn source definitions Mode.all :=
  fun _ mode' _ _ _ _ _ => mode'.mem_all

theorem Rule.staysIn_loud {rule : Rule κ} (hrule : rule.has hidesCalls = false) :
    rule.StaysIn source definitions Mode.loud := by
  intro r mode' j mode i hmode hcall
  rw [Mode.mem_loud] at hmode ⊢
  rw [hcall.quiet_eq hrule, hmode]

theorem Definitions.keeps_modes {modes : List Mode}
    (hbodies : ∀ r body, definitions.body? r = some body → body.StaysIn source definitions modes)
    (limit : Nat) :
    definitions.Keeps source limit (fun _ _ mode i => i ≤ source.last ∧ mode ∈ modes)
      (fun _ => True) fun s => ∀ key ∈ s.memo, key.index ≤ source.last ∧ key.mode ∈ modes where
  note s f _ hs := by rwa [State.memo_note]
  observe _ _ hs := hs
  remember _ r mode i s o hgood hs key hkey := by
    rcases State.mem_remember hkey with rfl | hmem
    · exact hgood
    · exact hs key hmem
  undefined _ _ _ _ _ _ _ := trivial
  limited _ _ _ _ _ _ := trivial
  fatal _ _ _ _ _ _ _ _ _ _ := trivial
  calls levels r mode i body hgood hbody hi r' mode' j hcall :=
    ⟨(hcall.bounds hi).2, hbodies r body hbody r' mode' j mode i hgood.2 hcall⟩

/-- A parse that starts with an empty memo and an empty log, and is not stopped, logs the traced
body of a recursive rule once for each result of the rule, and there is one for each token and mode
at most. -/
theorem Definitions.TracesAlone.parse_counts [DecidableEq κ] {r : Nat} {name : String}
    (h : definitions.TracesAlone r name) {rule : Rule κ}
    (hrule : rule.has (Rule.isTracedAs name) = false) {cursor : Cursor κ}
    (hindex : cursor.index ≤ cursor.source.last) (hmemo : cursor.state.memo = ∅)
    (hlog : cursor.state.log = some []) {modes : List Mode} (hmode : cursor.mode ∈ modes)
    (hstays : rule.StaysIn cursor.source definitions modes)
    (hbodies : ∀ r body, definitions.body? r = some body →
      body.StaysIn cursor.source definitions modes) (place : Nat → Bool) :
    let parsed := cursor.parse definitions rule
    let runs := parsed.2.drainLog.1.countP fun event => event.rule == name && place event.offset
    parsed.1.isDecided = true →
      runs = parsed.2.state.memo.keys.countP (fun key => key.scope == definitions.scope &&
        key.rule == r && place (cursor.source.offset key.index)) ∧
      runs ≤ modes.length *
        (List.range cursor.source.size).countP fun i => place (cursor.source.offset i) := by
  intro parsed runs hdecided
  have htruthful : cursor.state.Truthful cursor.source definitions :=
    State.truthful_of_memo_empty hmemo
  have hbalanced : cursor.state.Balanced cursor.source definitions.scope r name place := by
    refine ⟨[], hlog, ?_⟩
    rw [hmemo]
    rfl
  have hkeys : ∀ key ∈ cursor.state.memo, key.index ≤ cursor.source.last ∧ key.mode ∈ modes := by
    intro key hkey
    rw [hmemo] at hkey
    exact absurd hkey Std.TreeMap.not_mem_emptyc
  have hcounted := run_balanced place
    (h.invoke_balanced cursor.source place cursor.maxDepth (cursor.maxDepth - cursor.depth))
    cursor.depth hrule cursor.mode hindex ⟨htruthful, hbalanced⟩
  have hkeeps := Definitions.keeps_modes hbodies cursor.maxDepth
  have hbounded := hkeeps.run_proceeds
    (hkeeps.invoke_proceeds (cursor.maxDepth - cursor.depth)) cursor.depth rule
    (fun _ _ _ => trivial) cursor.mode hindex
    (fun r' mode' j hcall => ⟨(hcall.bounds hindex).2, hstays r' mode' j _ _ hmode hcall⟩)
    ⟨htruthful, hkeys⟩
  have hruns := (hcounted.of_isDecided hdecided).2.countP_drained
  have hbound := Memo.countP_keys_le (hbounded.of_isDecided hdecided).2 definitions.scope r place
  exact ⟨hruns, Nat.le_trans (Nat.le_of_eq hruns) hbound⟩

end AnnotationScan.Peg
