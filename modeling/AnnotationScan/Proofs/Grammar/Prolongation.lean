import AnnotationScan.Proofs.Grammar.Continuation
import AnnotationScan.Proofs.Grammar.Endings

/-!
# What stands behind an annotation

A source consists of an annotation and nothing else, and another source goes on behind it with a
token that cannot be taken for a part of it.  Then the annotation is recognized on both alike: each
attempt in front of its end either stays inside a pair of brackets, or it ends behind a name, a type
or a colon and is turned down by the token there on both sources.
-/

namespace AnnotationScan.Grammar

open Peg

/-- A token that is not taken for a part of the type or annotation in front of it. -/
structure Harmless (lexeme : Lexeme TokenKind) : Prop where
  less : lexeme.kind ≠ .less
  dot : lexeme.kind ≠ .dot
  colon : lexeme.kind ≠ .colon
  leftParen : lexeme.kind = .leftParen → lexeme.newlineBefore = true

/-- A source that goes on behind an annotation that another one consists of. -/
structure Prolongs (source source' : Source TokenKind) : Prop
    extends source.Continues source' where
  whole : source.nesting true [] 0 source.last = some []
  last_kind : (source.lexeme (source.last - 1)).kind ∈ EndsIn.annotationKinds
  harmless : (source.lexeme (source.last - 1)).kind ∈ EndsIn.typeKinds →
    Harmless (source'.lexeme source.last)

/-- A token in front of which no bracket is open. -/
structure Outer (source : Source TokenKind) (i : Nat) : Prop where
  le : i ≤ source.last
  nesting : source.nesting true [] 0 i = some []

/-- A token where a type may end. -/
structure Ready (source source' : Source TokenKind) (i : Nat) : Prop extends Outer source i where
  harmless : i = source.last → Harmless (source'.lexeme source.last)

variable {source source' : Source TokenKind} {trace : Bool} {limit i j : Nat}
  {rule : TokenRule} {v : Span} {d : Nat} {m : Bool}

theorem Outer.derives (hsource : source.Marked) (h : Outer source i) (hn : Nests true [] rule [])
    (hd : Derives source (definitions trace) d rule m i (.matched v j)) : Outer source j := by
  obtain ⟨hij, hj⟩ := hd.bounds h.le _ rfl
  refine ⟨hj, ?_⟩
  have hrest := hn.nesting hsource hd h.le _ rfl
  exact Source.nesting_trans (Nat.zero_le i) hij h.nesting hrest

/-- A bracket that is opened where none is open is closed in front of the end. -/
theorem Outer.closed (hwhole : source.nesting true [] 0 source.last = some [])
    (h : Outer source i) (hi : i < source.last) {b : Bracket}
    (hread : Bracket.read true [] (source.lexeme i).kind = some [b]) :
    ∃ k, i + 1 + k < source.last ∧ source.nesting (b = .angle) [] (i + 1) k = some [] ∧
      Bracket.read (b = .angle) [] (source.lexeme (i + 1 + k)).kind = none := by
  obtain ⟨n, hn⟩ := Nat.exists_eq_add_of_le (Nat.succ_le_of_lt hi)
  have hrest : source.nesting true [b] (i + 1) n = some [] := by
    rw [hn, Source.nesting_add, Source.nesting, h.nesting] at hwhole
    simpa [hread] using hwhole
  rcases Source.nesting_closed hrest with ⟨k, hk, hinner, hstuck, -⟩ | ⟨inner, -, hinner⟩
  · exact ⟨k, by omega, hinner, hstuck⟩
  · simp at hinner

namespace Prolongs

variable (h : Prolongs source source')
include h

theorem pos : 0 < source.last := by
  refine Nat.pos_of_ne_zero fun hzero => ?_
  have hkind := h.last_kind
  rw [source.lexeme_of_last_le (by omega), h.marked.marker] at hkind
  revert hkind
  decide

/-- Kinds in which no annotation ends are met only in front of its last token. -/
theorem lt_of_derives {kinds : List TokenKind} {takes : Bool}
    (hsupported : kinds.all (!·.isUnsupported) = true)
    (hkinds : ∀ kind ∈ kinds, kind ∉ EndsIn.annotationKinds) (he : EndsIn kinds takes rule)
    (hi : i ≤ source.last) (htakes : takes = false → i < source.last)
    (hd : Derives source (definitions trace) d rule m i (.matched v j)) : j < source.last := by
  rcases he.lastAmong h.marked hsupported hd hi _ rfl with ⟨rfl, hfalse⟩ | ⟨-, hkind⟩
  · exact htakes hfalse
  · apply Nat.lt_of_le_of_ne (hd.bounds hi _ rfl).2
    rintro rfl
    exact hkinds _ hkind h.last_kind

theorem ready (hi : Outer source i) (hn : Nests true [] rule [])
    (he : EndsIn EndsIn.typeKinds true rule)
    (hd : Derives source (definitions trace) d rule m i (.matched v j)) :
    Ready source source' j := by
  refine ⟨hi.derives h.marked hn hd, ?_⟩
  rintro rfl
  rcases he.lastAmong h.marked rfl hd hi.le _ rfl with ⟨-, hfalse⟩ | ⟨-, hkind⟩
  · cases hfalse
  · exact h.harmless hkind

end Prolongs

/-- A rule that does not match at a token, keeps the memo and notes a failure unless it is to be
silent. -/
def Rejects (source : Source TokenKind) (trace : Bool) (limit : Nat) (rule : TokenRule) (i : Nat) :
    Prop :=
  ∀ mode s, mode.newlines = true → ∃ failure s',
    rule.run source 0 ((definitions trace).invoke source limit limit) mode i s =
      (.failed failure, s') ∧
    s'.memo = s.memo ∧ s'.furthest.isSome = (s.furthest.isSome || !mode.quiet)

namespace Rejects

theorem fail {reason : Reason} (hreason : reason.isFatal = false) (mode : Mode) (i : Nat)
    (s : State) : ∃ failure s', source.fail reason mode i s = (.failed failure, s') ∧
      s'.memo = s.memo ∧ s'.furthest.isSome = (s.furthest.isSome || !mode.quiet) := by
  have houtcome : (source.fail reason mode i s).1 = .failed (source.failureAt reason i) := by
    rw [Source.fail_fst, Outcome.ofFailure_eq_failed hreason]
  refine ⟨_, (source.fail reason mode i s).2, Prod.ext houtcome rfl, ?_⟩
  unfold Source.fail
  cases hquiet : mode.quiet with
  | true => simp
  | false =>
      change (s.note _).memo = _ ∧ (s.note _).furthest.isSome = _
      rw [State.memo_note, State.furthest_note]
      simp

theorem token {kind : TokenKind} (hkind : (source.lexeme i).kind ≠ kind) :
    Rejects source trace limit (.token kind) i := by
  intro mode s _
  rw [Rule.run, if_neg hkind]
  exact fail rfl mode i s

theorem andThen {first second : TokenRule} (hfirst : Rejects source trace limit first i) :
    Rejects source trace limit (.andThen first second) i := by
  intro mode s hmode
  obtain ⟨failure, s', hrun, hrest⟩ := hfirst mode s hmode
  exact ⟨failure, s', by rw [Rule.run, hrun], hrest⟩

theorem named {name : String} {part : TokenRule} (hpart : Rejects source trace limit part i) :
    Rejects source trace limit (Grammar.named trace name part) i := by
  unfold Grammar.named
  split
  · intro mode s hmode
    obtain ⟨failure, s', hrun, hmemo, hfurthest⟩ := hpart mode s hmode
    rw [Rule.run, hrun]
    exact ⟨failure, _, rfl, (s'.memo_observe _).trans hmemo, hfurthest⟩
  · exact hpart

theorem onSameLine {part : TokenRule} (hpart : (source.lexeme i).newlineBefore = false →
    Rejects source trace limit part i) :
    Rejects source trace limit (Grammar.onSameLine part) i := by
  cases hbreak : (source.lexeme i).newlineBefore with
  | true =>
      refine andThen fun mode s hmode => ?_
      have hline : Rule.lineBreak.run source 0 ((definitions trace).invoke source limit limit)
          { mode with quiet := true } i s = (source.stay i, s) := by
        simp [Rule.run, hmode, hbreak, Source.stay]
      rw [Rule.run, hline]
      exact fail rfl mode i s
  | false =>
      intro mode s hmode
      obtain ⟨failure, s', hrun, hrest⟩ := hpart hbreak mode s hmode
      have hline : (Rule.notAhead .lineBreak).run source 0
          ((definitions trace).invoke source limit limit) mode i s = (source.stay i, s) := by
        simp [Rule.run, hbreak, Source.fail, Outcome.ofFailure, Failure.isFatal, Reason.isFatal,
          Source.stay]
      refine ⟨failure, s', ?_, hrest⟩
      rw [Grammar.onSameLine, Rule.seq, Rule.run, hline, Rule.seq]
      dsimp only [Source.stay]
      rw [Rule.run, hrun]

end Rejects

namespace Steady

theorem of_rejects (hrule : Rejects source trace limit rule i)
    (hrule' : Rejects source' trace limit rule i) : Steady source source' trace limit rule i := by
  intro mode s t hmode hS
  obtain ⟨failure, s', hrun, hmemo, hfurthest⟩ := hrule mode s hmode
  obtain ⟨failure', t', hrun', hmemo', hfurthest'⟩ := hrule' mode t hmode
  rw [hrun, hrun']
  refine .inr ⟨.failed trivial, hS.truthful.of_memo_eq hmemo, ?_, ?_⟩
  · have hsome := Likeness.furthest_loose.1 hS.furthest
    exact Likeness.furthest_loose.2 (by rw [hfurthest, hfurthest', hsome])
  · change ∀ rule mode i, _ → _ → Option.Rel _ s'.memo[_]? t'.memo[_]?
    rw [hmemo, hmemo']
    exact hS.memo

/-- What stands in brackets does not depend on what is behind them. -/
theorem enclosed (h : Prolongs source source') (hi : Outer source i) {opening closing : TokenKind}
    {content : TokenRule} {b : Bracket} (hopening : Bracket.read true [] opening = some [b])
    (hcontent : Nests (b = .angle) [] content [])
    (hlast : i = source.last → (source'.lexeme source.last).kind ≠ opening) :
    Steady source source' trace limit
      (Rule.seq [.token opening, content, .token closing]) i := by
  have hend : opening ≠ .endOfInput := by
    rintro rfl
    simp [Bracket.read, TokenKind.isUnsupported] at hopening
  rcases Nat.eq_or_lt_of_le hi.le with rfl | hlt
  · -- at the end no bracket is opened on either source
    refine andThen (Nat.le_refl _) (token_last h.toContinues hend (hlast rfl)) fun d v j hd => ?_
    cases hd with
    | token hkind =>
        rw [source.lexeme_of_last_le (Nat.le_refl _), h.marked.marker] at hkind
        exact absurd hkind.symm hend
  refine andThen hi.le (token h.toContinues hlt opening) fun d v j hd => ?_
  cases hd with
  | token hkind =>
      -- the bracket is closed at `k`, and the content ends in front of that
      obtain ⟨k, hk, hinner, hstuck⟩ := hi.closed h.whole hlt (hkind ▸ hopening)
      have hnext : source.next i = i + 1 := Nat.min_eq_left hlt
      rw [hnext]
      refine andThen (by omega) ?_ fun d v j hd => ?_
      · exact of_alikeFor (by omega) (h.alikeFor hcontent hinner hstuck hk true)
      · have hbounds := hd.bounds (by omega) _ rfl
        have hle := Source.nesting_le hinner hstuck
          (hcontent.nesting h.marked hd (by omega) _ rfl)
        exact andThen hbounds.2 (token h.toContinues (by omega) closing) fun _ _ _ _ => nothing

theorem typeArguments (h : Prolongs source source') (hi : Ready source source' i) :
    Steady source source' trace limit (Grammar.typeArguments trace) i :=
  named (enclosed h hi.toOuter rfl (.commaList .typeProjection) fun hlast => (hi.harmless hlast).less)

theorem simpleUserType (h : Prolongs source source') (hi : Outer source i)
    (hlt : i < source.last) :
    Steady source source' trace limit (Grammar.simpleUserType trace) i := by
  refine named (andThen hi.le (word h.toContinues hlt) fun d v j hd => ?_)
  have hj := h.ready hi .word (.word (by decide)) hd
  exact andThen hj.le (optional (typeArguments h hj)) fun _ _ _ _ => nothing

theorem userType (h : Prolongs source source') (hi : Outer source i) (hlt : i < source.last) :
    Steady source source' trace limit (Grammar.userType trace) i := by
  have hnests : Nests true [] (Rule.seq [.token .dot, Grammar.simpleUserType trace]) [] :=
    .andThen (.plain rfl) (.andThen .simpleUserType .nothing)
  have hends : EndsIn EndsIn.typeKinds true
      (Rule.seq [.token .dot, Grammar.simpleUserType trace]) :=
    .last (.andThen (.simpleUserType (by decide) (by decide)) .nothing)
  refine named (andThen hi.le (simpleUserType h hi hlt) fun d v j hd => ?_)
  have hj := h.ready hi .simpleUserType (.simpleUserType (by decide) (by decide)) hd
  refine andThen hj.le (many (Ready source source') (fun k hk => ?_) (fun k hk => ?_) ?_ hj)
    fun _ _ _ _ => nothing
  · exact ⟨hk.le, Nat.le_trans hk.le h.last_le⟩
  · refine andThen hk.le ?_ fun d v l hd => ?_
    · rcases Nat.eq_or_lt_of_le hk.le with rfl | hklt
      · exact token_last h.toContinues (by decide) (hk.harmless rfl).dot
      · exact token h.toContinues hklt .dot
    · have hl := hk.derives h.marked (.plain rfl) hd
      have hdot : EndsIn [.dot] true (.token .dot) := .token List.mem_cons_self
      have hlt := h.lt_of_derives rfl (by decide) hdot hk.le nofun hd
      exact andThen hl.le (simpleUserType h hl hlt) fun _ _ _ _ => nothing
  · intro k d v l hk hd _
    exact h.ready hk.toOuter hnests hends hd

theorem arguments (h : Prolongs source source') (hi : Ready source source' i) :
    Steady source source' trace limit (onSameLine (Grammar.valueArguments trace)) i := by
  rcases Nat.eq_or_lt_of_le hi.le with rfl | hlt
  · have hmarker := source.lexeme_of_last_le (Nat.le_refl source.last)
    -- no arguments at the end marker, and none on the line of the harmless token
    refine of_rejects (.onSameLine fun _ => .named (.andThen (.token ?_)))
      (.onSameLine fun hline => .named (.andThen (.token fun hkind => ?_)))
    · rw [hmarker, h.marked.marker]
      decide
    · rw [(hi.harmless rfl).leftParen hkind] at hline
      cases hline
  · have hcontent : Nests false []
        (.newlines false (.optional (commaList (Grammar.valueArgument trace)))) [] :=
      .newlines (.optional (.commaList (.valueArgument rfl)))
    refine andThen hi.le (notAhead hi.le (lineBreak h.toContinues hlt) fun _ _ _ _ => ?_)
      fun d v j hd => ?_
    · rw [h.lexeme i hlt]
    · cases hd with
      | notAhead _ =>
          refine andThen hi.le (named (enclosed h hi.toOuter rfl hcontent fun hlast => ?_))
            fun _ _ _ _ => nothing
          exact absurd hlast (Nat.ne_of_lt hlt)

theorem noParen (h : Prolongs source source') (hi : Ready source source' i) :
    Steady source source' trace limit (.notAhead (onSameLine (.token .leftParen))) i := by
  have hparen : EndsIn [.leftParen] true (onSameLine (.token .leftParen)) :=
    .last (.andThen (.token List.mem_cons_self) .nothing)
  rcases Nat.eq_or_lt_of_le hi.le with rfl | hlt
  · have hmarker := source.lexeme_of_last_le (Nat.le_refl source.last)
    refine notAhead hi.le (of_rejects (.onSameLine fun _ => .token ?_)
      (.onSameLine fun hline => .token fun hkind => ?_)) fun d v j hd => ?_
    · rw [hmarker, h.marked.marker]
      decide
    · rw [(hi.harmless rfl).leftParen hkind] at hline
      cases hline
    · have hlt := h.lt_of_derives rfl (by decide) hparen hi.le nofun hd
      have hbounds := hd.bounds hi.le _ rfl
      omega
  · refine notAhead hi.le (andThen hi.le (notAhead hi.le (lineBreak h.toContinues hlt)
      fun _ _ _ _ => ?_) fun d v j hd => ?_) fun _ _ _ _ => ?_
    · rw [h.lexeme i hlt]
    · cases hd with
      | notAhead _ => exact andThen hi.le (token h.toContinues hlt _) fun _ _ _ _ => nothing
    · rw [h.lexeme i hlt]

theorem annotationUnescaped (h : Prolongs source source') (hi : Outer source i)
    (hlt : i < source.last) :
    Steady source source' trace limit (Grammar.annotationUnescaped trace) i := by
  have hends : EndsIn EndsIn.typeKinds true (Grammar.userType trace) :=
    .userType (by decide) (by decide)
  refine named (orElse (named (andThen hi.le (userType h hi hlt) fun d v j hd => ?_))
    (andThen hi.le (userType h hi hlt) fun d v j hd => ?_))
  · have hj := h.ready hi .userType hends hd
    exact andThen hj.le (arguments h hj) fun _ _ _ _ => nothing
  · have hj := h.ready hi .userType hends hd
    exact andThen hj.le (noParen h hj) fun _ _ _ _ => nothing

theorem targetPrefix (h : Prolongs source source') (hi : Outer source i) (hlt : i < source.last) :
    Steady source source' trace limit Grammar.targetPrefix i := by
  have hends : EndsIn EndsIn.typeKinds true (keywordAmong useSiteTargets) :=
    .keywordAmong (by decide) (by decide)
  refine andThen hi.le (choice fun rule hrule => ?_) fun d v j hd => ?_
  · obtain ⟨text, -, rfl⟩ := List.mem_map.1 hrule
    exact keyword h.toContinues hlt text
  · have hj := h.ready hi .keywordAmong hends hd
    refine andThen hj.le ?_ fun _ _ _ _ => nothing
    rcases Nat.eq_or_lt_of_le hj.le with rfl | hjlt
    · exact token_last h.toContinues (by decide) (hj.harmless rfl).colon
    · exact token h.toContinues hjlt .colon

theorem annotationSingle (h : Prolongs source source') (hi : Outer source i)
    (hlt : i < source.last) :
    Steady source source' trace limit (Grammar.annotationSingle trace) i := by
  have hat : EndsIn [.atSign] true (.token .atSign) := .token List.mem_cons_self
  refine named (andThen hi.le (token h.toContinues hlt .atSign) fun d v j hd => ?_)
  have hj := hi.derives h.marked (.plain rfl) hd
  have hjlt := h.lt_of_derives rfl (by decide) hat hi.le nofun hd
  refine andThen hj.le (orElse ?_ ?_) fun _ _ _ _ => nothing
  · refine andThen hj.le (targetPrefix h hj hjlt) fun d v k hd => ?_
    have hk := hj.derives h.marked .targetPrefix hd
    have hklt := h.lt_of_derives rfl (by decide) .targetPrefix hj.le nofun hd
    exact andThen hk.le (annotationUnescaped h hk hklt) fun _ _ _ _ => nothing
  · refine andThen hj.le (notAhead hj.le (targetPrefix h hj hjlt) fun _ _ _ _ => ?_)
      fun d v k hd => ?_
    · rw [h.lexeme j hjlt]
    · cases hd with
      | notAhead _ => exact andThen hj.le (annotationUnescaped h hj hjlt) fun _ _ _ _ => nothing

theorem annotationMulti (h : Prolongs source source') (hi : Outer source i)
    (hlt : i < source.last) :
    Steady source source' trace limit (Grammar.annotationMulti trace) i := by
  have hat : EndsIn [.atSign] true (.token .atSign) := .token List.mem_cons_self
  have hcontent : Nests false []
      (.newlines false (Rule.atLeastOnce (Grammar.annotationUnescaped trace))) [] :=
    .newlines (.atLeastOnce .annotationUnescaped)
  refine named (andThen hi.le (token h.toContinues hlt .atSign) fun d v j hd => ?_)
  have hj := hi.derives h.marked (.plain rfl) hd
  have hjlt := h.lt_of_derives rfl (by decide) hat hi.le nofun hd
  refine andThen hj.le (optional (targetPrefix h hj hjlt)) fun d v k hd => ?_
  have hk := hj.derives h.marked (.optional .targetPrefix) hd
  have hklt := h.lt_of_derives rfl (by decide) (.optional .targetPrefix) hj.le (fun _ => hjlt) hd
  refine andThen hk.le (enclosed h hk rfl hcontent fun hlast => ?_) fun _ _ _ _ => nothing
  exact absurd hlast (Nat.ne_of_lt hklt)

theorem plainEntry (h : Prolongs source source') :
    Steady source source' trace limit (Grammar.plainEntry trace) 0 := by
  have hzero : Outer source 0 := ⟨Nat.zero_le _, rfl⟩
  exact named (orElse (annotationSingle h hzero h.pos) (annotationMulti h hzero h.pos))

end Steady

end AnnotationScan.Grammar
