import AnnotationScan.Proofs.Grammar.Nesting

/-!
# Where line breaks count

Line breaks count inside braces and outside of all brackets, and they do not count inside
parentheses and brackets.  Rules do not know the brackets around them; they switch the counting on
and off.  `openBehind?` walks through a rule with both, the brackets and the switch, and gives up
where a line break is tested while the two disagree.  It is evaluated on the bodies of the recursive
rules once and for all, so whatever an entry attempts is attempted with the two in agreement.
-/

namespace AnnotationScan

open Peg

namespace Bracket

/-- Whether line breaks count inside the innermost open bracket; `lines` is the answer where none
is open. -/
def countsLines (lines : Bool) : List Bracket → Bool
  | [] => lines
  | b :: _ => b = .brace

variable {before after outer : List Bracket}

theorem countsLines_append (lines : Bool) (before outer : List Bracket) :
    countsLines (countsLines lines outer) before = countsLines lines (before ++ outer) := by
  cases before with
  | nil => rfl
  | cons b before => rfl

theorem countsAngles_append (houter : countsAngles false outer = false) :
    countsAngles false (before ++ outer) = countsAngles false before := by
  cases before with
  | nil => exact houter
  | cons b before => rfl

/-- What is read inside some brackets is read alike with more brackets around them. -/
theorem read_outer {kind : TokenKind} (houter : countsAngles false outer = false)
    (h : read false before kind = some after) :
    read false (before ++ outer) kind = some (after ++ outer) := by
  simp only [read, countsAngles_append houter] at h ⊢
  split at h
  case isTrue => cases h
  case isFalse hsupported =>
    rw [if_neg hsupported]
    split at h
    case h_1 b hopened =>
      obtain rfl := Option.some.inj h
      rfl
    case h_2 b hopened hclosed =>
      split at h
      case isFalse => cases h
      case isTrue hhead =>
        cases before with
        | nil => cases hhead
        | cons c before =>
            obtain rfl := Option.some.inj h
            exact if_pos hhead
    case h_3 hopened hclosed =>
      obtain rfl := Option.some.inj h
      rfl

end Bracket

namespace Grammar

/-- The words that some rule tells from other identifiers. -/
def softKeywords : List String := useSiteTargets ++ ["suspend", "dynamic", "file", "out"]

/-- The brackets that are open behind a match of a rule that is applied inside the brackets
`before`, where line breaks count as `count` tells; `lines` tells whether they count outside of
`before`.  There are none if the rule reads brackets that do not match, tests for a line break or
applies a recursive rule where `count` is not what the brackets say, or asks for a word that is no
soft keyword. -/
def openBehind? (lines : Bool) : (count : Bool) → (before : List Bracket) → TokenRule →
    Option (List Bracket)
  | _, before, .token kind => Bracket.read false before kind
  | _, before, .keyword text => if text ∈ softKeywords then some before else none
  | _, before, .word | _, before, .nothing | _, before, .fail _ => some before
  | count, before, .andThen first second =>
    match openBehind? lines count before first with
    | some between => openBehind? lines count between second
    | none => none
  | count, before, .orElse first second =>
    match openBehind? lines count before first with
    | some after => if openBehind? lines count before second = some after then some after else none
    | none => none
  | count, before, .optional part | count, before, .many part =>
    if openBehind? lines count before part = some before then some before else none
  | count, before, .ahead part | count, before, .notAhead part =>
    if (openBehind? lines count before part).isSome then some before else none
  | count, before, .lineBreak =>
    if count = Bracket.countsLines lines before then some before else none
  | _, before, .newlines count part => openBehind? lines count before part
  | count, before, .traced _ part => openBehind? lines count before part
  | count, before, .ref rule =>
    if count = Bracket.countsLines lines before ∧ Bracket.countsAngles false before = false ∧
      rule ∈ Nonterminal.all.map Nonterminal.index then some before else none
  | _, _, .any | _, _, .failNext _ | _, _, .endPoint _ => none

/-- A rule that closes the brackets it opens and counts line breaks as they tell. -/
abbrev Aligned (lines : Bool) (rule : TokenRule) : Prop :=
  openBehind? lines lines [] rule = some []

namespace Aligned

theorem body (nonterminal : Nonterminal) (lines trace : Bool) :
    Aligned lines (nonterminal.body trace) := by
  revert lines trace
  cases nonterminal <;> decide

theorem entry (entry : Entry) (settings : Settings) :
    Aligned true ((Recognizer.build settings).rule entry) := by
  apply rule_cases (P := Aligned true)
  · decide
  · decide

end Aligned

variable {source : Source TokenKind} {lines count trace : Bool} {before after outer : List Bracket}
  {rule first second part : TokenRule}

theorem openBehind?_andThen
    (h : openBehind? lines count before (.andThen first second) = some after) :
    ∃ between, openBehind? lines count before first = some between ∧
      openBehind? lines count between second = some after := by
  rw [openBehind?] at h
  split at h
  case h_1 between hbetween => exact ⟨between, hbetween, h⟩
  case h_2 => cases h

theorem openBehind?_orElse
    (h : openBehind? lines count before (.orElse first second) = some after) :
    openBehind? lines count before first = some after ∧
      openBehind? lines count before second = some after := by
  rw [openBehind?] at h
  split at h
  case h_1 behind hfirst =>
    rw [Option.ite_none_right_eq_some] at h
    obtain ⟨hsecond, ⟨⟩⟩ := h
    exact ⟨hfirst, hsecond⟩
  case h_2 => cases h

/-- With more brackets around it a rule still closes what it opens. -/
theorem Nests.of_openBehind? (houter : Bracket.countsAngles false outer = false)
    (h : openBehind? lines count before rule = some after) :
    Nests false (before ++ outer) rule (after ++ outer) := by
  induction rule generalizing count before after with
  | token kind => exact .token (Bracket.read_outer houter h)
  | word =>
      obtain rfl := Option.some.inj h
      exact .word
  | nothing =>
      obtain rfl := Option.some.inj h
      exact .nothing
  | fail reason => exact .fail
  | keyword text =>
      rw [openBehind?, Option.ite_none_right_eq_some] at h
      obtain ⟨-, ⟨⟩⟩ := h
      exact .keyword
  | lineBreak =>
      rw [openBehind?, Option.ite_none_right_eq_some] at h
      obtain ⟨-, ⟨⟩⟩ := h
      exact .lineBreak
  | andThen first second ihfirst ihsecond =>
      obtain ⟨between, hfirst, hsecond⟩ := openBehind?_andThen h
      exact .andThen (ihfirst hfirst) (ihsecond hsecond)
  | orElse first second ihfirst ihsecond =>
      obtain ⟨hfirst, hsecond⟩ := openBehind?_orElse h
      exact .orElse (ihfirst hfirst) (ihsecond hsecond)
  | optional part ih =>
      rw [openBehind?, Option.ite_none_right_eq_some] at h
      obtain ⟨hpart, ⟨⟩⟩ := h
      exact .optional (ih hpart)
  | many part ih =>
      rw [openBehind?, Option.ite_none_right_eq_some] at h
      obtain ⟨hpart, ⟨⟩⟩ := h
      exact .many (ih hpart)
  | ahead part ih =>
      rw [openBehind?, Option.ite_none_right_eq_some] at h
      obtain ⟨hpart, ⟨⟩⟩ := h
      obtain ⟨between, hbetween⟩ := Option.isSome_iff_exists.1 hpart
      exact .ahead (ih hbetween)
  | notAhead part ih =>
      rw [openBehind?, Option.ite_none_right_eq_some] at h
      obtain ⟨hpart, ⟨⟩⟩ := h
      obtain ⟨between, hbetween⟩ := Option.isSome_iff_exists.1 hpart
      exact .notAhead (ih hbetween)
  | newlines flag part ih => exact .newlines (ih h)
  | traced name part ih => exact .traced (ih h)
  | ref r =>
      rw [openBehind?, Option.ite_none_right_eq_some] at h
      obtain ⟨⟨-, hangles, hr⟩, ⟨⟩⟩ := h
      obtain ⟨nonterminal, -, hindex⟩ := List.mem_map.1 hr
      exact .ref hindex (.inr ((Bracket.countsAngles_append houter).trans hangles))
  | any => cases h
  | failNext reason => cases h
  | endPoint part ih => cases h

/-- A part of a rule that is attempted inside some open brackets heeds them: it tests for a line
break and applies a recursive rule only if line breaks count as the brackets tell, and it asks for
no words but soft keywords. -/
structure Heeds (inner : List Bracket) (count : Bool) (part : TokenRule) : Prop where
  lineBreak : part = .lineBreak → count = Bracket.countsLines true inner
  ref : ∀ rule, part = .ref rule → count = Bracket.countsLines true inner
  keyword : ∀ text, part = .keyword text → text ∈ softKeywords

theorem Heeds.of_openBehind?
    (h : openBehind? (Bracket.countsLines true outer) count before part = some after) :
    Heeds (before ++ outer) count part := by
  constructor
  · rintro rfl
    rw [openBehind?, Option.ite_none_right_eq_some] at h
    exact h.1.trans (Bracket.countsLines_append true before outer)
  · rintro rule rfl
    rw [openBehind?, Option.ite_none_right_eq_some] at h
    exact h.1.1.trans (Bracket.countsLines_append true before outer)
  · rintro text rfl
    rw [openBehind?, Option.ite_none_right_eq_some] at h
    exact h.1

/-- Whatever is attempted heeds the brackets that are open there. -/
theorem heeds_of_visits (hsource : source.Marked) {m : Bool} {place i : Nat}
    (hv : Visits source (definitions trace) part count place rule m i) (hi : i ≤ source.last) :
    ∀ {before after outer}, Bracket.countsAngles false outer = false →
      openBehind? (Bracket.countsLines true outer) m before rule = some after →
      ∃ inner, source.nesting false (before ++ outer) i (place - i) = some inner ∧
        Heeds inner count part := by
  induction hv with
  | here =>
      intro before after outer _ h
      exact ⟨before ++ outer, by simp [Source.nesting], .of_openBehind? h⟩
  | andThenFirst _ ih =>
      intro before after outer houter h
      obtain ⟨between, hbetween, -⟩ := openBehind?_andThen h
      exact ih hi houter hbetween
  | andThenSecond hfirst hsecond ih =>
      intro before after outer houter h
      obtain ⟨between, hbetween, hbehind⟩ := openBehind?_andThen h
      obtain ⟨hij, hj⟩ := hfirst.bounds hi _ rfl
      obtain ⟨inner, hinner, hheeds⟩ := ih hj houter hbehind
      -- what the first part has taken is read up to the brackets that the second one starts in
      have hnests := Nests.of_openBehind? houter hbetween
      exact ⟨inner, Source.nesting_trans hij (hsecond.bounds hj).1
        (hnests.nesting hsource hfirst hi _ rfl) hinner, hheeds⟩
  | orElseFirst _ ih =>
      intro before after outer houter h
      exact ih hi houter (openBehind?_orElse h).1
  | orElseSecond _ _ ih =>
      intro before after outer houter h
      exact ih hi houter (openBehind?_orElse h).2
  | optional _ ih | many _ ih =>
      intro before after outer houter h
      rw [openBehind?, Option.ite_none_right_eq_some] at h
      exact ih hi houter h.1
  | manyMore hpart _ hrest ih =>
      intro before after outer houter h
      obtain ⟨hij, hj⟩ := hpart.bounds hi _ rfl
      have hagain := h
      rw [openBehind?, Option.ite_none_right_eq_some] at h
      have hnests := Nests.of_openBehind? houter h.1
      obtain ⟨inner, hinner, hheeds⟩ := ih hj houter hagain
      exact ⟨inner, Source.nesting_trans hij (hrest.bounds hj).1
        (hnests.nesting hsource hpart hi _ rfl) hinner, hheeds⟩
  | ahead _ ih | notAhead _ ih =>
      intro before after outer houter h
      rw [openBehind?, Option.ite_none_right_eq_some] at h
      obtain ⟨between, hbetween⟩ := Option.isSome_iff_exists.1 h.1
      exact ih hi houter hbetween
  | newlines _ ih | traced _ ih =>
      intro before after outer houter h
      exact ih hi houter h
  | endPoint _ _ =>
      intro before after outer _ h
      cases h
  | ref hbody _ ih =>
      intro before after outer houter h
      rw [openBehind?, Option.ite_none_right_eq_some] at h
      obtain ⟨⟨rfl, hangles, hr⟩, -⟩ := h
      obtain ⟨nonterminal, -, rfl⟩ := List.mem_map.1 hr
      obtain rfl := Option.some.inj ((definitions_body? trace nonterminal).symm.trans hbody)
      rw [Bracket.countsLines_append] at ih
      -- a body opens no bracket before its first token, so all brackets are around it
      have hinside := ih hi ((Bracket.countsAngles_append houter).trans hangles)
        (Aligned.body nonterminal _ trace)
      exact hinside

theorem heeds_of_visits_entry (hsource : source.Marked) {settings : Settings} {entry : Entry}
    {place i : Nat} (hv : Visits source (Recognizer.build settings).definitions
      part count place ((Recognizer.build settings).rule entry) true i) (hi : i ≤ source.last) :
    ∃ inner, source.nesting false [] i (place - i) = some inner ∧ Heeds inner count part := by
  have hno : Bracket.countsAngles false [] = false := rfl
  exact heeds_of_visits hsource hv hi hno (Aligned.entry entry settings)

/-- A line break is tested for behind a first token only. -/
theorem lt_of_visits_andThen (hsource : source.Marked) {kind : TokenKind}
    (hplain : kind.isPlain = true) {m : Bool} {place i : Nat}
    (hv : Visits source (definitions trace) .lineBreak count place
      (.andThen (.token kind) second) m i) (hi : i ≤ source.last) : i < place := by
  cases hv with
  | andThenFirst hfirst => cases hfirst
  | andThenSecond hfirst hsecond =>
      cases hfirst with
      | token hkind =>
          have hnext := lt_next_of_isPlain hsource (hkind ▸ hplain) hi
          exact Nat.lt_of_lt_of_le hnext (hsecond.bounds (source.next_le_last i)).1

theorem visits_of_named {name : String} {m : Bool} {place i : Nat}
    (hv : Visits source (definitions trace) .lineBreak count place (named trace name part) m i) :
    Visits source (definitions trace) .lineBreak count place part m i := by
  unfold named at hv
  split at hv
  · cases hv with
    | traced hpart => exact hpart
  · exact hv

theorem lt_of_visits_entry (hsource : source.Marked) {settings : Settings} {entry : Entry}
    {m : Bool} {place i : Nat} (hv : Visits source (Recognizer.build settings).definitions .lineBreak
      count place ((Recognizer.build settings).rule entry) m i) (hi : i ≤ source.last) :
    i < place := by
  cases entry with
  | file => exact lt_of_visits_andThen hsource rfl (visits_of_named hv) hi
  | plain =>
      cases visits_of_named hv with
      | orElseFirst hsingle => exact lt_of_visits_andThen hsource rfl (visits_of_named hsingle) hi
      | orElseSecond _ hmulti => exact lt_of_visits_andThen hsource rfl (visits_of_named hmulti) hi

end Grammar
end AnnotationScan
