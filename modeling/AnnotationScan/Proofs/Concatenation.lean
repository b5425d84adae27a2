import AnnotationScan.Proofs.Arguments
import AnnotationScan.Proofs.Grammar.Segments
import AnnotationScan.Proofs.Independence

/-!
# Lists of arguments, one behind the other

Two lists of arguments are recognized, each on its own.  Then both together are recognized with a
comma between them, unless type arguments reach from the first list over the comma.
-/

namespace AnnotationScan

open Peg

namespace Peg.Source

variable {source source' : Source TokenKind} {types : Bool} {before after : List Bracket}
  {start stop n : Nat}

theorem Shares.nesting (h : source.Shares source' start stop) (hn : start + n ≤ stop) :
    source.nesting types before start n = source'.nesting types before start n := by
  induction n with
  | zero => rfl
  | succ n ih =>
      rw [Source.nesting, Source.nesting, ih (by omega), (h (start + n) (by omega) (by omega)).kind]

/-- Where angle brackets are signs they are never left open. -/
theorem notMem_of_nesting (hbefore : .angle ∉ before)
    (h : source.nesting false before start n = some after) : .angle ∉ after := by
  induction n generalizing after with
  | zero =>
      obtain rfl := Option.some.inj h
      exact hbefore
  | succ n ih =>
      rw [Source.nesting, Option.bind_eq_some_iff] at h
      obtain ⟨inner, hinner, hread⟩ := h
      exact Bracket.notMem_of_read (ih hinner) hread

end Peg.Source

namespace Grammar

variable {source source' : Source TokenKind} {trace m : Bool} {rule item : TokenRule}
  {start stop i j k : Nat}

/-- Nothing reaches over a parenthesis that closes an outer one. -/
theorem le_of_rightParen (hsource : source.Marked) (hlast : stop ≤ source.last)
    (hnesting : source.nesting false [] start (stop - start) = some [])
    (hend : (source.lexeme stop).kind = .rightParen) (hrule : Nests false [] rule [])
    (hstart : start ≤ i) (hi : i ≤ stop)
    (hmatch : Matches source (definitions trace) rule m i j) : j ≤ stop := by
  obtain ⟨d, v, hd⟩ := hmatch
  have hread := hrule.nesting hsource hd (Nat.le_trans hi hlast) j rfl
  have hij := (hd.bounds (Nat.le_trans hi hlast) j rfl).1
  obtain ⟨outer, houter, hrest⟩ := Source.exists_between hstart hi hnesting
  cases outer with
  | nil =>
      have hle := Source.nesting_le hrest (by rw [Nat.add_sub_cancel' hi, hend]; rfl) hread
      omega
  | cons b outer =>
      have hb : decide (b = .angle) = false := by
        have hangle := Source.notMem_of_nesting List.not_mem_nil houter
        exact decide_eq_false fun hb => hangle (hb ▸ List.mem_cons_self)
      rcases Source.nesting_closed hrest with ⟨n, hn, hinner, hstuck, -⟩ | ⟨inner, -, hfalse⟩
      · rw [hb] at hinner hstuck
        have hle := Source.nesting_le hinner hstuck hread
        omega
      · simp at hfalse

theorem Segment.of_rightParen (hsource : source.Marked) (hlast : stop < source.last)
    (hnesting : source.nesting false [] start (stop - start) = some [])
    (hend : (source.lexeme stop).kind = .rightParen) : Segment source trace start stop where
  marked := hsource
  lt_last := hlast
  nesting := hnesting
  ends := by simp [hend]
  typeArguments := le_of_rightParen hsource (Nat.le_of_lt hlast) hnesting hend .typeArguments

theorem Segment.of_comma (h : Segment source trace start stop)
    (hshares : source.Shares source' start stop) (hsource : source'.Marked)
    (hlast : stop < source'.last) (hstart : start ≤ stop)
    (hend : (source'.lexeme stop).kind = .comma)
    (htypes : ∀ i j, start ≤ i → i < stop →
      Matches source' (definitions trace) (Grammar.typeArguments trace) false i j → j ≤ stop) :
    Segment source' trace start stop where
  marked := hsource
  lt_last := hlast
  nesting := (hshares.nesting (by omega)).symm.trans h.nesting
  ends := by simp [hend]
  typeArguments {i j} hi hstop hmatch := by
    rcases Nat.eq_or_lt_of_le hstop with rfl | hlt
    · have hnone : Refuses source' (definitions trace) (Grammar.typeArguments trace) false i :=
        refuses_typeArguments (by rw [hend]; decide)
      exact absurd hnone (hmatch.not_refuses (by omega))
    · exact htypes i j hi hlt hmatch

theorem Segment.matches_more (h : Segment source trace start stop)
    (h' : Segment source' trace start stop) (hshares : source.Shares source' start stop)
    (hitem : selfContained trace item = true) (hstart : start ≤ i) (hi : i ≤ stop)
    (hmore : Matches source (definitions trace) (.many (Rule.seq [.token .comma, item])) false i stop)
    (hrest : Matches source' (definitions trace) (.many (Rule.seq [.token .comma, item])) false stop
      j) :
    Matches source' (definitions trace) (.many (Rule.seq [.token .comma, item])) false i j := by
  have hlast := h.lt_last
  induction hn : stop - i using Nat.strong_induction_on generalizing i with
  | _ n ih =>
      rcases matches_many.1 hmore with ⟨-, rfl⟩ | ⟨k, hne, hpart, hmore'⟩
      · exact hrest
      · obtain ⟨hik, hk⟩ := hpart.bounds (by omega)
        have hkstop := (hmore'.bounds hk).1
        have hlt : i < stop := by omega
        obtain ⟨l, hcomma, hnext⟩ := matches_pair.1 hpart
        obtain ⟨hkind, rfl⟩ := matches_token.1 hcomma
        rw [h.next_eq hlt] at hnext
        have hcomma' : Matches source' (definitions trace) (.token .comma) false i (i + 1) :=
          matches_token.2 ⟨(hshares i hstart hlt).kind ▸ hkind, (h'.next_eq hlt).symm⟩
        have hnext' := h.matches_shared h' hshares hitem (by omega) hlt hnext
        exact (matches_pair.2 ⟨i + 1, hcomma', hnext'⟩).matches_many hne
          (ih (stop - k) (by omega) (by omega) hkstop hmore' rfl)

theorem exists_items (hsource : source.Marked) (hi : i ≤ source.last) (hij : j ≠ i)
    (hlast : (source.lexeme (j - 1)).kind ≠ .comma)
    (h : Matches source (definitions trace) (.optional (commaList item)) m i j) :
    ∃ k, Matches source (definitions trace) item m i k ∧
      Matches source (definitions trace) (.many (Rule.seq [.token .comma, item])) m k j := by
  rcases matches_optional.1 h with hlist | ⟨-, hnone⟩
  · obtain ⟨k, hk, hrest⟩ := matches_andThen.1 hlist
    obtain ⟨l, hmore, hcomma⟩ := matches_pair.1 hrest
    have hk' := (hk.bounds hi).2
    have hl := (hmore.bounds hk').2
    rcases matches_optional.1 hcomma with hcomma | ⟨-, rfl⟩
    · obtain ⟨hkind, rfl⟩ := matches_token.1 hcomma
      have hlt := hsource.lt_last hl (by rw [hkind]; decide)
      rw [Source.next_of_lt hlt] at hlast
      exact absurd hkind hlast
    · exact ⟨k, hk, hmore⟩
  · exact absurd hnone hij

/-- An annotation that is more than a name has arguments, on the line of the name. -/
theorem exists_arguments (hsource : source.Marked) (hname : (source.lexeme 1).isWord = true)
    (hparen : (source.lexeme 2).kind = .leftParen) (hlast : 2 < source.last) (hj : 2 < j)
    (h : Matches source (definitions trace) (plainEntry trace) true 0 j) :
    (source.lexeme 2).newlineBefore = false ∧
      Matches source (definitions trace) (valueArguments trace) true 2 j := by
  have hnext : source.next 0 = 1 := Source.next_of_lt (by omega)
  have htype {k : Nat} (hk : Matches source (definitions trace) (userType trace) true 1 k) :
      k = 2 :=
    hk.unique (matches_userType_of_leftParen hname (by omega) hparen) (by omega)
  have htarget : Refuses source (definitions trace) targetPrefix true 1 := by
    apply refuses_targetPrefix
    rw [Source.next_of_lt (by omega), hparen]
    decide
  rcases matches_orElse.1 (matches_named.1 h) with hsingle | ⟨-, hmulti⟩
  · obtain ⟨k, hat, hchoice⟩ := matches_pair.1 (matches_named.1 hsingle)
    obtain rfl : k = 1 := hnext ▸ (matches_token.1 hat).2
    rcases matches_orElse.1 hchoice with htargeted | ⟨-, huntargeted⟩
    · obtain ⟨l, hl, -⟩ := matches_pair.1 htargeted
      exact absurd htarget (hl.not_refuses (by omega))
    · obtain ⟨l, hl, hunescaped⟩ := matches_pair.1 huntargeted
      obtain ⟨-, rfl⟩ := matches_notAhead.1 hl
      rcases matches_orElse.1 (matches_named.1 hunescaped) with hcall | ⟨-, hbare⟩
      · obtain ⟨l, hl, harguments⟩ := matches_pair.1 (matches_named.1 hcall)
        obtain rfl := htype hl
        obtain ⟨hline, harguments⟩ := matches_onSameLine.1 harguments
        exact ⟨by simpa using hline, harguments⟩
      · obtain ⟨l, hl, hnone⟩ := matches_pair.1 hbare
        obtain rfl := htype hl
        obtain ⟨-, rfl⟩ := matches_notAhead.1 hnone
        exact absurd hj (Nat.lt_irrefl 2)
  · obtain ⟨k, hat, hrest⟩ := matches_andThen.1 (matches_named.1 hmulti)
    obtain rfl : k = 1 := hnext ▸ (matches_token.1 hat).2
    obtain ⟨l, hoptional, hlist⟩ := matches_pair.1 hrest
    rcases matches_optional.1 hoptional with hl | ⟨-, rfl⟩
    · exact absurd htarget (hl.not_refuses (by omega))
    · have hkind := (matches_wrapped.1 hlist).1
      rw [hsource.word 1 hname] at hkind
      cases hkind

theorem exists_segment (hsource : source.Marked) (hname : (source.lexeme 1).isWord = true)
    (hparen : (source.lexeme 2).kind = .leftParen) (hlast : source.last = stop + 1)
    (hstop : 3 < stop) (hcomma : (source.lexeme (stop - 1)).kind ≠ .comma)
    (h : Matches source (definitions trace) (plainEntry trace) true 0 (stop + 1)) :
    (source.lexeme 2).newlineBefore = false ∧ Segment source trace 3 stop ∧
      ∃ k, Matches source (definitions trace) (valueArgument trace) false 3 k ∧
        Matches source (definitions trace)
          (.many (Rule.seq [.token .comma, valueArgument trace])) false k stop := by
  obtain ⟨hline, harguments⟩ :=
    exists_arguments hsource hname hparen (by omega) (by omega) h
  obtain ⟨-, k, hcontent, hclosing, hk⟩ := matches_wrapped.1 (matches_named.1 harguments)
  rw [Source.next_of_lt (by omega)] at hcontent
  have hklast : k < source.last := by
    apply hsource.lt_last (hcontent.bounds (by omega)).2
    rw [hclosing]
    decide
  rw [Source.next_of_lt hklast] at hk
  obtain rfl : stop = k := Nat.succ.inj hk
  refine ⟨hline, ?_, exists_items hsource (by omega) (by omega) hcomma hcontent⟩
  have hnests : Nests false [] (.optional (commaList (valueArgument trace))) [] :=
    .optional (.commaList (.valueArgument rfl))
  obtain ⟨d, v, hd⟩ := hcontent
  exact .of_rightParen hsource hklast (hnests.nesting hsource hd (by omega) stop rfl) hclosing

theorem matches_concatenated {left right whole : Source TokenKind} {middle stop shift k l : Nat}
    (hmiddle : 3 ≤ middle) (hstop : 3 ≤ stop) (hleft : Segment left trace 3 middle)
    (hfirst : Segment whole trace 3 middle) (hshares : left.Shares whole 3 middle)
    (hright : Segment right trace 3 stop)
    (hsecond : Segment (whole.behind shift) trace 3 stop)
    (hshares' : right.Shares (whole.behind shift) 3 stop) (hshift : shift + 3 = middle + 1)
    (hparen : (whole.lexeme 2).kind = .leftParen) (hcomma : (whole.lexeme middle).kind = .comma)
    (hclosing : (whole.lexeme (shift + stop)).kind = .rightParen)
    (hitem : Matches left (definitions trace) (valueArgument trace) false 3 k)
    (hmore : Matches left (definitions trace)
      (.many (Rule.seq [.token .comma, valueArgument trace])) false k middle)
    (hitem' : Matches right (definitions trace) (valueArgument trace) false 3 l)
    (hmore' : Matches right (definitions trace)
      (.many (Rule.seq [.token .comma, valueArgument trace])) false l stop) :
    Matches whole (definitions trace) (valueArguments trace) true 2 (shift + stop + 1) := by
  have hcontained := selfContained_valueArgument trace
  have hlast := hfirst.lt_last
  have hlast' := hsecond.lt_last
  rw [Source.last_behind] at hlast'
  have hleftlast := hleft.lt_last
  have hrightlast := hright.lt_last
  have hk := hitem.bounds (by omega)
  have hl := hitem'.bounds (by omega)
  have hkmiddle := (hmore.bounds hk.2).1
  have hlstop := (hmore'.bounds hl.2).1
  have hend : Refuses whole (definitions trace) (.token .comma) false (shift + stop) :=
    refuses_token.2 (by rw [hclosing]; decide)
  have hend' : Refuses (whole.behind shift) (definitions trace)
      (Rule.seq [.token .comma, valueArgument trace]) false stop :=
    refuses_seq (refuses_token.2 (by rw [Source.lexeme_behind, hclosing]; decide))
  -- the second row is matched behind the comma
  have hrest := (hright.matches_more hsecond hshares' hcontained hl.1 hlstop hmore'
    hend'.matches_many).of_behind (by omega) (by rw [Source.last_behind]; omega)
  have hnext := (hright.matches_shared hsecond hshares' hcontained (Nat.le_refl 3) hstop
    hitem').of_behind (by omega) (by rw [Source.last_behind]; omega)
  rw [hshift] at hnext
  have hpair : Matches whole (definitions trace) (Rule.seq [.token .comma, valueArgument trace])
      false middle (shift + l) :=
    matches_pair.2 ⟨middle + 1, matches_token.2 ⟨hcomma, (Source.next_of_lt hlast).symm⟩, hnext⟩
  -- and the first one in front of it
  have hmany := hleft.matches_more hfirst hshares hcontained hk.1 hkmiddle hmore
    (hpair.matches_many (by omega) hrest)
  have hhead := hleft.matches_shared hfirst hshares hcontained (Nat.le_refl 3) hmiddle hitem
  refine matches_named.2 (matches_wrapped.2 ⟨hparen, shift + stop, ?_, hclosing,
    (Source.next_of_lt (by omega)).symm⟩)
  rw [Source.next_of_lt (by omega)]
  exact matches_optional.2 (.inl (matches_andThen.2 ⟨k, hhead, matches_pair.2
    ⟨shift + stop, hmany, matches_optional.2 (.inr ⟨hend, rfl⟩)⟩⟩))

end Grammar

/-- What rules see of a token in a list: its kind, its text and whether it starts a line. -/
structure Sight where
  kind : TokenKind
  text : String
  newlineBefore : Bool
deriving DecidableEq

structure Sight.Fits (sight : Sight) (lexeme : Lexeme TokenKind) : Prop where
  kind : lexeme.kind = sight.kind
  isWord : lexeme.isWord = (sight.kind == .identifier)
  text : lexeme.text = sight.text
  newlineBefore : lexeme.newlineBefore = sight.newlineBefore

theorem Sight.Fits.looks {sight : Sight} {a b : Lexeme TokenKind} (ha : sight.Fits a)
    (hb : sight.Fits b) : a.Looks b :=
  ⟨ha.kind.trans hb.kind.symm, ha.isWord.trans hb.isWord.symm, ha.text.trans hb.text.symm,
    ha.newlineBefore.trans hb.newlineBefore.symm⟩

namespace TokenList

def sights (list : TokenList) : List Sight :=
  list.tokens.toList.map fun token => ⟨token.kind, list.textAt token.span, token.before.lineFeed⟩

/-- The list consists of the tokens `front`, those of a row of arguments, a closing parenthesis and
the end marker. -/
def Invokes (list : TokenList) (front row : List Sight) : Prop :=
  ∃ closing stop, closing.kind = .rightParen ∧ stop.kind = .endOfInput ∧
    list.sights = front ++ (row ++ [closing, stop])

theorem fits_toSource {list : TokenList} {i : Nat} {sight : Sight}
    (h : list.sights[i]? = some sight) : sight.Fits (list.toSource.lexeme i) := by
  rw [sights, List.getElem?_map, Option.map_eq_some_iff] at h
  obtain ⟨token, htoken, rfl⟩ := h
  rw [list.lexeme_toSource (by rwa [Array.getElem?_toList] at htoken)]
  exact ⟨rfl, rfl, rfl, rfl⟩

namespace Invokes

variable {list : TokenList} {front row : List Sight} {i : Nat}

theorem kinds (h : list.Invokes front row) : list.tokens.toList.map (·.kind) =
    (front ++ row).map (·.kind) ++ [.rightParen, .endOfInput] := by
  obtain ⟨closing, stop, hclosing, hstop, hsights⟩ := h
  have hkinds := congrArg (List.map Sight.kind) hsights
  simpa [sights, Function.comp_def, hclosing, hstop] using hkinds

theorem marked (h : list.Invokes front row) : list.toSource.Marked := by
  have hkinds := h.kinds
  rw [List.append_cons] at hkinds
  exact marked_of_kinds hkinds

theorem last (h : list.Invokes front row) :
    list.toSource.last = front.length + row.length + 1 := by
  have hlength := congrArg List.length h.kinds
  simp only [List.length_map, Array.length_toList, List.length_append, List.length_cons,
    List.length_nil] at hlength
  rw [last_toSource, hlength]
  rfl

theorem closing (h : list.Invokes front row) :
    (list.toSource.lexeme (front.length + row.length)).kind = .rightParen := by
  rw [kind_toSource h.kinds (by simp), List.getElem_append_right (by simp)]
  simp

theorem fits_front (h : list.Invokes front row) {sight : Sight} (hsight : front[i]? = some sight) :
    sight.Fits (list.toSource.lexeme i) := by
  obtain ⟨closing, stop, -, -, hsights⟩ := h
  apply fits_toSource
  rw [hsights, List.getElem?_append_left (List.getElem?_eq_some_iff.1 hsight).1, hsight]

theorem fits_row (h : list.Invokes front row) {sight : Sight} (hsight : row[i]? = some sight) :
    sight.Fits (list.toSource.lexeme (front.length + i)) := by
  obtain ⟨closing, stop, -, -, hsights⟩ := h
  apply fits_toSource
  rw [hsights, List.getElem?_append_right (Nat.le_add_right _ _), Nat.add_sub_cancel_left,
    List.getElem?_append_left (List.getElem?_eq_some_iff.1 hsight).1, hsight]

theorem kind_front {kinds : List TokenKind} (h : list.Invokes front row)
    (hfront : front.map (·.kind) = kinds) (hi : i < kinds.length) :
    (list.toSource.lexeme i).kind = kinds[i] := by
  subst hfront
  rw [List.length_map] at hi
  rw [(h.fits_front (List.getElem?_eq_getElem hi)).kind, List.getElem_map]

theorem shares_append {list' : TokenList} {rest : List Sight} (h : list.Invokes front row)
    (h' : list'.Invokes front (row ++ rest)) :
    list.toSource.Shares list'.toSource front.length (front.length + row.length) := by
  intro i hi hlt
  obtain ⟨n, rfl⟩ := Nat.exists_eq_add_of_le hi
  have hn : n < row.length := by omega
  have hget := List.getElem?_eq_getElem hn
  exact (h.fits_row hget).looks (h'.fits_row (by rw [List.getElem?_append_left hn, hget]))

theorem shares_behind {list' : TokenList} {rest : List Sight} (h : list.Invokes front row)
    (h' : list'.Invokes front (rest ++ row)) :
    list.toSource.Shares (list'.toSource.behind rest.length) front.length
      (front.length + row.length) := by
  intro i hi hlt
  obtain ⟨n, rfl⟩ := Nat.exists_eq_add_of_le hi
  have hget : row[n]? = some row[n] := List.getElem?_eq_getElem (by omega)
  have hget' : (rest ++ row)[rest.length + n]? = some row[n] := by
    rw [List.getElem?_append_right (Nat.le_add_right _ _), Nat.add_sub_cancel_left, hget]
  have hfits := h'.fits_row hget'
  rw [Nat.add_left_comm] at hfits
  rw [Source.lexeme_behind]
  exact (h.fits_row hget).looks hfits

/-- A list that is recognized as a whole has a row of arguments. -/
theorem exists_arguments {settings : Settings} {span : Span} (h : list.Invokes front row)
    (hfront : front.map (·.kind) = [.atSign, .identifier, .leftParen]) (hne : row ≠ [])
    (hlast : ∀ sight ∈ row.getLast?, sight.kind ≠ .comma)
    (hrecognized : (Recognizer.build settings).recognizeAt list 0 = .ok ⟨span, list.size - 1⟩) :
    (list.toSource.lexeme 2).newlineBefore = false ∧
      Grammar.Segment list.toSource settings.traceRules 3 (3 + row.length) ∧
      ∃ k, Matches list.toSource (Grammar.definitions settings.traceRules)
          (Grammar.valueArgument settings.traceRules) false 3 k ∧
        Matches list.toSource (Grammar.definitions settings.traceRules)
          (.many (Rule.seq [.token .comma, Grammar.valueArgument settings.traceRules])) false k
          (3 + row.length) := by
  have hlength : front.length = 3 := by simpa using congrArg List.length hfront
  have hpos := List.length_pos_iff.2 hne
  have hend := h.last
  rw [hlength] at hend
  have hsize : list.size - 1 = 3 + row.length + 1 := list.last_toSource.symm.trans hend
  have hname : (list.toSource.lexeme 1).isWord = true := by
    rw [isWord_toSource, h.kind_front hfront (by simp)]
    rfl
  have hcomma : (list.toSource.lexeme (3 + row.length - 1)).kind ≠ .comma := by
    have hget := List.getLast?_eq_some_getLast hne
    have hfits := hget
    rw [List.getLast?_eq_getElem?] at hfits
    rw [Nat.add_sub_assoc hpos, ← hlength, (h.fits_row hfits).kind]
    exact hlast _ hget
  rw [hsize] at hrecognized
  obtain ⟨d, hd⟩ := Recognizer.derives_of_matchAt (Recognizer.recognizeAt_eq_ok_iff.1 hrecognized)
  exact Grammar.exists_segment h.marked hname (h.kind_front hfront (by simp)) hend (by omega) hcomma
    ⟨d, span, hd⟩

end Invokes
end TokenList

namespace Recognizer

/-- Two annotations with the same name are recognized as a whole.  Then the annotation with the
arguments of both is recognized as a whole, unless type arguments that begin among the first
arguments end behind the comma or the depth does not suffice. -/
theorem recognizeAt_concatenated (settings : Settings) (left right whole : TokenList)
    (front first second : List Sight) (comma : Sight)
    (hfront : front.map (·.kind) = [.atSign, .identifier, .leftParen]) (hcomma : comma.kind = .comma)
    (hleft : left.Invokes front first) (hright : right.Invokes front second)
    (hwhole : whole.Invokes front (first ++ comma :: second)) (hfirst : first ≠ [])
    (hsecond : second ≠ []) (hlast : ∀ sight ∈ first.getLast?, sight.kind ≠ .comma)
    (hlast' : ∀ sight ∈ second.getLast?, sight.kind ≠ .comma)
    (hrecognized : ∃ span, (build settings).recognizeAt left 0 = .ok ⟨span, left.size - 1⟩)
    (hrecognized' : ∃ span, (build settings).recognizeAt right 0 = .ok ⟨span, right.size - 1⟩)
    (htypes : ∀ i j, i < first.length → Matches whole.toSource
      (Grammar.definitions settings.traceRules) (Grammar.typeArguments settings.traceRules) false
      (3 + i) j → j ≤ 3 + first.length)
    (hlimit : ∀ failure, (build settings).recognizeAt whole 0 = .error failure →
      ∀ limit, failure.reason ≠ .depthLimit limit) :
    (build settings).recognizeAt whole 0 =
      .ok ⟨whole.toSource.spanFrom 0 (whole.size - 1), whole.size - 1⟩ := by
  have hlength : front.length = 3 := by simpa using congrArg List.length hfront
  have hkind := fun i hi => hwhole.kind_front hfront (i := i) hi
  have hend := hwhole.last
  have hclosing := hwhole.closing
  rw [hlength, List.length_append, List.length_cons] at hend hclosing
  have hsize : whole.size - 1 = 3 + (first.length + (second.length + 1)) + 1 :=
    whole.last_toSource.symm.trans hend
  obtain ⟨span, hspan⟩ := hrecognized
  obtain ⟨span', hspan'⟩ := hrecognized'
  obtain ⟨hline, hsegment, k, hitem, hmore⟩ := hleft.exists_arguments hfront hfirst hlast hspan
  obtain ⟨-, hsegment', l, hitem', hmore'⟩ := hright.exists_arguments hfront hsecond hlast' hspan'
  have hmiddle : (whole.toSource.lexeme (3 + first.length)).kind = .comma := by
    have hget : (first ++ comma :: second)[first.length]? = some comma := by simp
    rw [← hlength, (hwhole.fits_row hget).kind, hcomma]
  have hwhole' : whole.Invokes front ((first ++ [comma]) ++ second) := by simpa using hwhole
  have hshares := hleft.shares_append hwhole
  have hshares' := hright.shares_behind hwhole'
  rw [hlength] at hshares
  rw [hlength, List.length_append, List.length_singleton] at hshares'
  have hfirst' : Grammar.Segment whole.toSource settings.traceRules 3 (3 + first.length) := by
    refine hsegment.of_comma hshares hwhole.marked (by omega) (by omega) hmiddle
      fun i j hi hlt hmatch => ?_
    obtain ⟨n, rfl⟩ := Nat.exists_eq_add_of_le hi
    exact htypes n j (by omega) hmatch
  have hclosing' : (whole.toSource.lexeme (first.length + 1 + (3 + second.length))).kind =
      .rightParen := by
    rw [← hclosing]
    congr 2
    omega
  have hsecond' : Grammar.Segment (whole.toSource.behind (first.length + 1)) settings.traceRules 3
      (3 + second.length) :=
    .of_rightParen (hwhole.marked.behind _) (by rw [Source.last_behind]; omega)
      ((hshares'.nesting (by omega)).symm.trans hsegment'.nesting)
      (by rw [Source.lexeme_behind, hclosing'])
  have harguments := Grammar.matches_concatenated (Nat.le_add_right 3 _) (Nat.le_add_right 3 _)
    hsegment hfirst' hshares hsegment' hsecond' hshares' (by omega) (hkind 2 (by simp)) hmiddle
    hclosing' hitem hmore hitem' hmore'
  have hname : (whole.toSource.lexeme 1).isWord = true := by
    rw [TokenList.isWord_toSource, hkind 1 (by simp)]
    rfl
  have hline' : (whole.toSource.lexeme 2).newlineBefore = false := by
    have hget : front[2]? = some front[2] := List.getElem?_eq_getElem (by omega)
    rw [(hwhole.fits_front hget).newlineBefore, ← (hleft.fits_front hget).newlineBefore, hline]
  have hentry : Matches whole.toSource (Grammar.definitions settings.traceRules)
      (Grammar.plainEntry settings.traceRules) true 0 (whole.size - 1) := by
    have hnext : whole.toSource.next 0 = 1 ∧ whole.toSource.next 1 = 2 :=
      ⟨Source.next_of_lt (by omega), Source.next_of_lt (by omega)⟩
    apply Grammar.matches_plainEntry (hkind 0 (by simp))
    · rw [hnext.1, hnext.2, hkind 2 (by simp)]
      exact (by decide : TokenKind.leftParen ≠ .colon)
    · rw [hnext.1, show whole.size - 1 = first.length + 1 + (3 + second.length) + 1 by omega]
      exact Grammar.matches_invocation hname (by omega) (hkind 2 (by simp)) hline' harguments
  exact recognizeAt_of_matches hlimit hentry

/-- The tokens of `@N(a < b)`, of `@N(c)`, and of both in one. -/
def smaller : TokenList :=
  ⟨"@N(a < b)", #[⟨.atSign, ⟨0, 1⟩, .empty⟩, ⟨.identifier, ⟨1, 2⟩, .empty⟩,
    ⟨.leftParen, ⟨2, 3⟩, .empty⟩, ⟨.identifier, ⟨3, 4⟩, .empty⟩,
    ⟨.less, ⟨5, 6⟩, ⟨true, false, false⟩⟩, ⟨.identifier, ⟨7, 8⟩, ⟨true, false, false⟩⟩,
    ⟨.rightParen, ⟨8, 9⟩, .empty⟩, ⟨.endOfInput, ⟨9, 9⟩, .empty⟩]⟩

def single : TokenList :=
  ⟨"@N(c)", #[⟨.atSign, ⟨0, 1⟩, .empty⟩, ⟨.identifier, ⟨1, 2⟩, .empty⟩,
    ⟨.leftParen, ⟨2, 3⟩, .empty⟩, ⟨.identifier, ⟨3, 4⟩, .empty⟩, ⟨.rightParen, ⟨4, 5⟩, .empty⟩,
    ⟨.endOfInput, ⟨5, 5⟩, .empty⟩]⟩

def smallerThenSingle : TokenList :=
  ⟨"@N(a < b, c)", #[⟨.atSign, ⟨0, 1⟩, .empty⟩, ⟨.identifier, ⟨1, 2⟩, .empty⟩,
    ⟨.leftParen, ⟨2, 3⟩, .empty⟩, ⟨.identifier, ⟨3, 4⟩, .empty⟩,
    ⟨.less, ⟨5, 6⟩, ⟨true, false, false⟩⟩, ⟨.identifier, ⟨7, 8⟩, ⟨true, false, false⟩⟩,
    ⟨.comma, ⟨8, 9⟩, .empty⟩, ⟨.identifier, ⟨10, 11⟩, ⟨true, false, false⟩⟩,
    ⟨.rightParen, ⟨11, 12⟩, .empty⟩, ⟨.endOfInput, ⟨12, 12⟩, .empty⟩]⟩

/-- The tokens of `@N(c > d)`, and of `@N(a < b, c > d)`. -/
def greater : TokenList :=
  ⟨"@N(c > d)", #[⟨.atSign, ⟨0, 1⟩, .empty⟩, ⟨.identifier, ⟨1, 2⟩, .empty⟩,
    ⟨.leftParen, ⟨2, 3⟩, .empty⟩, ⟨.identifier, ⟨3, 4⟩, .empty⟩,
    ⟨.greater, ⟨5, 6⟩, ⟨true, false, false⟩⟩, ⟨.identifier, ⟨7, 8⟩, ⟨true, false, false⟩⟩,
    ⟨.rightParen, ⟨8, 9⟩, .empty⟩, ⟨.endOfInput, ⟨9, 9⟩, .empty⟩]⟩

def smallerThenGreater : TokenList :=
  ⟨"@N(a < b, c > d)", #[⟨.atSign, ⟨0, 1⟩, .empty⟩, ⟨.identifier, ⟨1, 2⟩, .empty⟩,
    ⟨.leftParen, ⟨2, 3⟩, .empty⟩, ⟨.identifier, ⟨3, 4⟩, .empty⟩,
    ⟨.less, ⟨5, 6⟩, ⟨true, false, false⟩⟩, ⟨.identifier, ⟨7, 8⟩, ⟨true, false, false⟩⟩,
    ⟨.comma, ⟨8, 9⟩, .empty⟩, ⟨.identifier, ⟨10, 11⟩, ⟨true, false, false⟩⟩,
    ⟨.greater, ⟨12, 13⟩, ⟨true, false, false⟩⟩, ⟨.identifier, ⟨14, 15⟩, ⟨true, false, false⟩⟩,
    ⟨.rightParen, ⟨15, 16⟩, .empty⟩, ⟨.endOfInput, ⟨16, 16⟩, .empty⟩]⟩

/-- The tokens in front of the arguments, and the arguments. -/
def nameAndParen : List Sight :=
  [⟨.atSign, "@", false⟩, ⟨.identifier, "N", false⟩, ⟨.leftParen, "(", false⟩]

def aSmallerB : List Sight :=
  [⟨.identifier, "a", false⟩, ⟨.less, "<", false⟩, ⟨.identifier, "b", false⟩]

def cGreaterD : List Sight :=
  [⟨.identifier, "c", false⟩, ⟨.greater, ">", false⟩, ⟨.identifier, "d", false⟩]

theorem invokes_of_sights {list : TokenList} {front row : List Sight}
    (h : list.sights = front ++ (row ++ [⟨.rightParen, ")", false⟩, ⟨.endOfInput, "", false⟩])) :
    list.Invokes front row := ⟨_, _, rfl, rfl, h⟩

theorem recognizeAt_smaller : (build {}).recognizeAt smaller 0 = .ok ⟨⟨0, 9⟩, 7⟩ := by
  decide +kernel

theorem recognizeAt_concatenated_smallerThenSingle :
    (build {}).recognizeAt smallerThenSingle 0 =
      .ok ⟨smallerThenSingle.toSource.spanFrom 0 9, 9⟩ := by
  have hwhole : smallerThenSingle.Invokes nameAndParen
      (aSmallerB ++ ⟨.comma, ",", false⟩ :: [⟨.identifier, "c", false⟩]) :=
    invokes_of_sights (by decide)
  have hrecognized : (build {}).recognizeAt single 0 = .ok ⟨⟨0, 5⟩, 5⟩ := by decide +kernel
  have hlimit : ∀ failure, (build {}).recognizeAt smallerThenSingle 0 ≠ .error failure := by
    have hok : ((build {}).recognizeAt smallerThenSingle 0).isOk = true := by decide +kernel
    rintro failure hfailure
    rw [hfailure] at hok
    cases hok
  refine recognizeAt_concatenated {} smaller single smallerThenSingle nameAndParen aSmallerB
    [⟨.identifier, "c", false⟩] ⟨.comma, ",", false⟩ rfl rfl (invokes_of_sights (by decide))
    (invokes_of_sights (by decide)) hwhole (by decide) (by decide) (by decide) (by decide)
    ⟨_, recognizeAt_smaller⟩ ⟨_, hrecognized⟩ (fun i j hi hmatch => ?_)
    fun failure hfailure => absurd hfailure (hlimit failure)
  -- only the `<` begins type arguments, and no `>` ends them
  have hless : ∀ i < aSmallerB.length, i ≠ 1 →
      (smallerThenSingle.toSource.lexeme (3 + i)).kind ≠ .less := by decide +kernel
  have hopen : ∀ n < 9, 2 < n → smallerThenSingle.toSource.nesting true [] 4 n ≠ some [] := by
    decide +kernel
  have hend : smallerThenSingle.toSource.last = 9 := by decide +kernel
  have hlength : aSmallerB.length = 3 := rfl
  rw [hlength] at hi ⊢
  obtain rfl | hne := eq_or_ne i 1
  · obtain ⟨d, v, hd⟩ := hmatch
    have hj := (hd.bounds (by omega) j rfl).2
    have hnesting : smallerThenSingle.toSource.nesting true [] 4 (j - 4) = some [] :=
      Grammar.Nests.typeArguments.nesting hwhole.marked hd (by omega) j rfl
    by_contra hlt
    exact hopen (j - 4) (by omega) (by omega) hnesting
  · exact absurd (Grammar.refuses_typeArguments (hless i hi hne)) (hmatch.not_refuses (by omega))

theorem not_forall_recognizeAt_concatenated :
    ¬∀ (settings : Settings) (left right whole : TokenList) (front first second : List Sight)
      (comma : Sight), front.map (·.kind) = [.atSign, .identifier, .leftParen] →
      comma.kind = .comma → left.Invokes front first → right.Invokes front second →
      whole.Invokes front (first ++ comma :: second) → first ≠ [] → second ≠ [] →
      (∀ sight ∈ first.getLast?, sight.kind ≠ .comma) →
      (∀ sight ∈ second.getLast?, sight.kind ≠ .comma) →
      (∃ span, (build settings).recognizeAt left 0 = .ok ⟨span, left.size - 1⟩) →
      (∃ span, (build settings).recognizeAt right 0 = .ok ⟨span, right.size - 1⟩) →
      (∀ failure, (build settings).recognizeAt whole 0 = .error failure →
        ∀ limit, failure.reason ≠ .depthLimit limit) →
      (build settings).recognizeAt whole 0 =
        .ok ⟨whole.toSource.spanFrom 0 (whole.size - 1), whole.size - 1⟩ := by
  intro hforall
  have hrecognized : (build {}).recognizeAt greater 0 = .ok ⟨⟨0, 9⟩, 7⟩ := by decide +kernel
  have hrejected : (build {}).recognizeAt smallerThenGreater 0 =
      .error ⟨.notImplemented "anonymousFunction", 10, 15⟩ := by decide +kernel
  have hmatched := hforall {} smaller greater smallerThenGreater nameAndParen aSmallerB cGreaterD
    ⟨.comma, ",", false⟩ rfl rfl (invokes_of_sights (by decide))
    (invokes_of_sights (by decide)) (invokes_of_sights (by decide)) (by decide)
    (by decide) (by decide) (by decide) ⟨_, recognizeAt_smaller⟩ ⟨_, hrecognized⟩ (by
      rw [hrejected]
      rintro failure ⟨⟩ limit
      exact nofun)
  rw [hrejected] at hmatched
  cases hmatched

end Recognizer
end AnnotationScan
