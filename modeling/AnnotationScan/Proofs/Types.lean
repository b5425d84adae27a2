import AnnotationScan.Proofs.Grammar.Lines
import AnnotationScan.Proofs.Token.Rows
import Mathlib.Data.List.Chain

/-!
# Types

Types are written as rows of names and signs.  No two signs in them are read as one, save a question
mark and the dot behind it: a nullable type in front of the dot of a function type.
-/

namespace AnnotationScan

/-- The parts that types are made of. -/
inductive TypePhrase where
  | segment
  | user
  | parenthesized
  | nullable
  | function
  | type
  | argument
  | parameter
deriving DecidableEq

/-- How a phrase ends behind which a type goes on. -/
def TypePhrase.closers : TypePhrase → List TokenKind
  | .nullable => [.question]
  | _ => [.identifier, .greater, .rightParen]

namespace Reading

def commaSeparated (rows : List (List Reading)) : List Reading := [sign .comma].intercalate rows

structure IsPlainName (text : String) : Prop extends IsName text where
  notSoft : text ∉ Grammar.softKeywords

def name (text : String) : Reading := (.identifier, text)

/-- The rows that are types or parts of types. -/
inductive TypeForm : TypePhrase → List Reading → Prop
  | simple {text : String} (h : IsPlainName text) : TypeForm .segment [name text]
  | generic {text : String} {rows : List (List Reading)} (h : IsPlainName text) (hne : rows ≠ [])
      (hrows : ∀ row ∈ rows, TypeForm .argument row) :
      TypeForm .segment (name text :: sign .less :: (commaSeparated rows ++ [sign .greater]))
  | segment {row : List Reading} (h : TypeForm .segment row) : TypeForm .user row
  | qualified {first rest : List Reading} (hfirst : TypeForm .segment first)
      (hrest : TypeForm .user rest) : TypeForm .user (first ++ sign .dot :: rest)
  | parenthesized {row : List Reading} (h : TypeForm .type row) :
      TypeForm .parenthesized (sign .leftParen :: (row ++ [sign .rightParen]))
  | nullable {phrase : TypePhrase} {row : List Reading} (n : Nat)
      (hphrase : phrase ∈ [.user, .parenthesized]) (h : TypeForm phrase row) :
      TypeForm .nullable (row ++ List.replicate (n + 1) (sign .question))
  | function {rows : List (List Reading)} {result : List Reading}
      (hrows : ∀ row ∈ rows, TypeForm .parameter row) (hresult : TypeForm .type result) :
      TypeForm .function (sign .leftParen ::
        (commaSeparated rows ++ sign .rightParen :: sign .arrow :: result))
  | extension {phrase : TypePhrase} {receiver row : List Reading}
      (hphrase : phrase ∈ [.user, .nullable, .parenthesized]) (hreceiver : TypeForm phrase receiver)
      (h : TypeForm .function row) : TypeForm .type (receiver ++ sign .dot :: row)
  | intersection {left right : List Reading} (hleft : TypeForm .user left)
      (hright : TypeForm .user right) : TypeForm .type (left ++ sign .ampersand :: right)
  | type {phrase : TypePhrase} {row : List Reading}
      (hphrase : phrase ∈ [.user, .nullable, .function, .parenthesized]) (h : TypeForm phrase row) :
      TypeForm .type row
  | invariant {row : List Reading} (h : TypeForm .type row) : TypeForm .argument row
  | variant {modifier : Reading} {row : List Reading}
      (hmodifier : modifier ∈ [sign .inKeyword, name "out"]) (h : TypeForm .type row) :
      TypeForm .argument (modifier :: row)
  | star : TypeForm .argument [sign .star]
  | unnamed {row : List Reading} (h : TypeForm .type row) : TypeForm .parameter row
  | named {text : String} {row : List Reading} (h : IsPlainName text) (htype : TypeForm .type row) :
      TypeForm .parameter (name text :: sign .colon :: row)

/-- Only words are kept apart. -/
def wordsApart (a b : Reading) : Bool := a.isWord && b.isWord

/-! ## Which tokens stand next to each other -/

/-- The signs that could be read together with the one in front of them. -/
def joining : List TokenKind := [.dot, .colon, .ampersand]

/-- A sign that could be read together with another one does not stand behind one, save a dot behind a
question mark. -/
def Beside (a b : Reading) : Prop :=
  b.1 ∈ joining → a.1 ∈ [.identifier, .greater, .rightParen] ∨ a.1 = .question ∧ b.1 = .dot

/-- A row that may stand behind any other one. -/
structure Neat (row : List Reading) : Prop where
  legible : ∀ a ∈ row, a.Legible
  beside : row.IsChain Beside
  head : ∀ a ∈ row.head?, a.1 ∉ joining

namespace Neat

variable {row rest : List Reading}

theorem nil : Neat [] := ⟨by simp, .nil, by simp⟩

theorem cons {a : Reading} (ha : a.Legible) (hsign : a.1 ∉ joining) (h : Neat row) :
    Neat (a :: row) := by
  refine ⟨List.forall_mem_cons.2 ⟨ha, h.legible⟩, List.isChain_cons.2 ⟨?_, h.beside⟩, by simpa⟩
  exact fun b hb hjoining => absurd hjoining (h.head b hb)

theorem sign {kind : TokenKind} (hkind : kind ∈ signs) (hsign : kind ∉ joining) (h : Neat row) :
    Neat (Reading.sign kind :: row) :=
  h.cons (.sign hkind) hsign

theorem name {text : String} (htext : IsName text) (h : Neat row) : Neat (Reading.name text :: row) :=
  h.cons (.name htext) (by simp [Reading.name, joining])

theorem append (h : Neat row) (hrest : Neat rest) : Neat (row ++ rest) := by
  refine ⟨List.forall_mem_append.2 ⟨h.legible, hrest.legible⟩, ?_, fun a ha => ?_⟩
  · exact h.beside.append hrest.beside fun a _ b hb hjoining => absurd hjoining (hrest.head b hb)
  · rw [List.head?_append, Option.mem_def, Option.or_eq_some_iff] at ha
    exact ha.elim (h.head a) fun ha => hrest.head a ha.2

theorem join (h : Neat row) (hne : row ≠ []) {a : Reading} (ha : a.Legible)
    (hlast : ∀ b ∈ row.getLast?, b.Beside a) (hrest : Neat rest) : Neat (row ++ a :: rest) := by
  refine ⟨List.forall_mem_append.2 ⟨h.legible, List.forall_mem_cons.2 ⟨ha, hrest.legible⟩⟩, ?_, ?_⟩
  · have hbehind : (a :: rest).IsChain Beside := List.isChain_cons.2
      ⟨fun b hb hjoining => absurd hjoining (hrest.head b hb), hrest.beside⟩
    exact h.beside.append hbehind fun b hb c hc => Option.some.inj hc ▸ hlast b hb
  · obtain ⟨b, row, rfl⟩ := List.exists_cons_of_ne_nil hne
    exact h.head

theorem commaSeparated {rows : List (List Reading)} (h : ∀ row ∈ rows, Neat row) :
    Neat (commaSeparated rows) := by
  induction rows with
  | nil => exact .nil
  | cons row rows ih =>
      obtain ⟨hrow, hrows⟩ := List.forall_mem_cons.1 h
      cases rows with
      | nil => simpa [Reading.commaSeparated] using hrow
      | cons next rows =>
          rw [Reading.commaSeparated, List.intercalate_cons_cons, List.append_assoc]
          exact hrow.append ((ih hrows).sign (by decide) (by decide))

end Neat

/-- Words stand apart, and so does a dot from a question mark in front of it unless the row holds no
such pair. -/
structure Separates (apart : Reading → Reading → Bool) (row : List Reading) : Prop where
  words : ∀ a b : Reading, a.isWord = true → b.isWord = true → apart a b = true
  dot : apart (sign .question) (sign .dot) = true ∨ ¬[sign .question, sign .dot] <:+: row

theorem Legible.eq_sign {a : Reading} (h : a.Legible) (hkind : a.1 ∈ signs) : a = Reading.sign a.1 := by
  cases h with
  | name _ => exact absurd hkind (by simp [signs])
  | sign _ => rfl
  | inKeyword => exact absurd hkind (by decide)

/-- No two tokens of a row are read as one where words and the pair of signs are kept apart. -/
theorem Neat.legal {row : List Reading} (h : Neat row) {apart : Reading → Reading → Bool}
    (hapart : Separates apart row) : row.IsChain (Legal apart) := by
  rw [List.isChain_iff_forall_rel_of_append_cons_cons]
  rintro a b front back rfl
  have ha : a.Legible := h.legible a (by simp)
  have hb : b.Legible := h.legible b (by simp)
  have hbeside : a.Beside b :=
    List.isChain_iff_forall_rel_of_append_cons_cons.1 h.beside rfl
  rw [Legal, or_iff_not_imp_right, Bool.not_eq_false, clash, Bool.or_eq_true, Bool.and_eq_true]
  rintro (⟨hword, hword'⟩ | hpair)
  · exact hapart.words a b hword hword'
  · by_cases hdot : a.1 = .question ∧ b.1 = .dot
    · have haq := ha.eq_sign (by rw [hdot.1]; decide)
      have hbd := hb.eq_sign (by rw [hdot.2]; decide)
      rw [hdot.1] at haq
      rw [hdot.2] at hbd
      rw [haq, hbd] at hapart ⊢
      exact hapart.dot.resolve_right fun hnot => hnot ⟨front, back, by simp⟩
    · -- no other pair of signs that clash stands side by side
      exfalso
      simp only [List.contains_eq_mem, decide_eq_true_eq, List.mem_cons, List.not_mem_nil,
        or_false, Prod.mk.injEq] at hpair
      rcases hpair with ⟨ha, hb⟩ | ⟨ha, hb⟩ | ⟨ha, hb⟩ | ⟨ha, hb⟩ | ⟨ha, hb⟩
      · exact hdot ⟨ha, hb⟩
      all_goals
        rw [Beside, ha, hb] at hbeside
        exact absurd hbeside (by decide)

/-! ## How types begin -/

/-- A row that starts with a parenthesis, or with a name that is no keyword and not followed by a
colon. -/
inductive Opening : List Reading → Prop
  | paren {rest : List Reading} : Opening (sign .leftParen :: rest)
  | name {text : String} {rest : List Reading} (hsoft : text ∉ Grammar.softKeywords)
      (hcolon : ∀ a ∈ rest.head?, a.1 ≠ .colon) : Opening (name text :: rest)

theorem head_sign {kind : TokenKind} (hkind : kind ≠ .colon) {rest : List Reading} :
    ∀ a ∈ (sign kind :: rest).head?, a.1 ≠ .colon := by
  rintro a ⟨⟩
  exact hkind

theorem Opening.append {row tail : List Reading} (h : Opening row)
    (htail : ∀ a ∈ tail.head?, a.1 ≠ .colon) : Opening (row ++ tail) := by
  cases h with
  | paren => exact .paren
  | @name text rest hsoft hcolon =>
      suffices h : Opening (Reading.name text :: (rest ++ tail)) from h
      refine .name hsoft fun a ha => ?_
      rw [List.head?_append, Option.mem_def, Option.or_eq_some_iff] at ha
      exact ha.elim (hcolon a) fun ha => htail a ha.2

def whole : List TypePhrase := [.user, .nullable, .function, .parenthesized]

theorem notMem_of_whole : ∀ phrase ∈ whole, phrase ∉ [TypePhrase.argument, .parameter] := by
  decide

namespace TypeForm

variable {phrase : TypePhrase} {row : List Reading}

theorem ne_nil (h : TypeForm phrase row) : row ≠ [] := by
  induction h with
  | segment _ ih | type _ _ ih | invariant _ ih | unnamed _ ih => exact ih
  | _ => simp

theorem isName_out : IsName "out" :=
  ⟨⟨'o', ['u', 't'], rfl, by decide, by decide⟩, by decide⟩

/-- How a type in front of a dot or an ampersand ends. -/
theorem exists_concat (h : TypeForm phrase row) :
    phrase ∈ [.segment, .user, .parenthesized, .nullable] →
      ∃ front a, row = front ++ [a] ∧ a.1 ∈ phrase.closers := by
  induction h with
  | simple => exact fun _ => ⟨[], _, rfl, by simp [Reading.name, TypePhrase.closers]⟩
  | @generic text rows =>
      exact fun _ => ⟨Reading.name text :: .sign .less :: Reading.commaSeparated rows, .sign .greater, rfl,
        by simp [Reading.sign, TypePhrase.closers]⟩
  | segment _ ih => exact fun _ => ih (by decide)
  | @qualified first rest _ _ _ ih =>
      obtain ⟨front, a, rfl, ha⟩ := ih (by decide)
      exact fun _ => ⟨first ++ .sign .dot :: front, a, by simp, ha⟩
  | @parenthesized row =>
      exact fun _ => ⟨.sign .leftParen :: row, .sign .rightParen, rfl,
        by simp [Reading.sign, TypePhrase.closers]⟩
  | @nullable phrase row n =>
      exact fun _ => ⟨row ++ List.replicate n (.sign .question), .sign .question,
        by rw [List.replicate_succ', List.append_assoc], by simp [Reading.sign, TypePhrase.closers]⟩
  | _ => exact fun hphrase => absurd hphrase (by decide)

theorem last (h : TypeForm phrase row)
    (hphrase : phrase ∈ [.segment, .user, .parenthesized, .nullable]) :
    ∀ a ∈ row.getLast?, a.1 ∈ phrase.closers := by
  obtain ⟨front, a, rfl, ha⟩ := h.exists_concat hphrase
  rintro b hb
  rw [List.getLast?_concat] at hb
  exact Option.some.inj hb ▸ ha

theorem neat (h : TypeForm phrase row) : Neat row := by
  -- a sign between two parts stands behind a name or a closing sign, or is a dot behind a question
  induction h with
  | simple h => exact .name h.toIsName .nil
  | generic h _ _ ih =>
      exact .name h.toIsName (.sign (by decide) (by decide)
        ((Neat.commaSeparated ih).append (.sign (by decide) (by decide) .nil)))
  | segment _ ih | type _ _ ih | invariant _ ih | unnamed _ ih => exact ih
  | qualified hfirst _ ihfirst ihrest =>
      exact ihfirst.join hfirst.ne_nil (.sign (by decide))
        (fun b hb _ => .inl (hfirst.last (by decide) b hb)) ihrest
  | parenthesized _ ih =>
      exact .sign (by decide) (by decide) (ih.append (.sign (by decide) (by decide) .nil))
  | nullable n _ _ ih =>
      refine ih.append ?_
      induction n with
      | zero => exact .sign (by decide) (by decide) .nil
      | succ n ihn => exact .sign (by decide) (by decide) ihn
  | function _ _ ihrows ihresult =>
      exact .sign (by decide) (by decide) ((Neat.commaSeparated ihrows).append
        (.sign (by decide) (by decide) (.sign (by decide) (by decide) ihresult)))
  | extension hphrase hreceiver _ ihreceiver ih =>
      refine ihreceiver.join hreceiver.ne_nil (.sign (by decide)) (fun b hb _ => ?_) ih
      simp only [List.mem_cons, List.not_mem_nil, or_false] at hphrase
      rcases hphrase with rfl | rfl | rfl
      · exact .inl (hreceiver.last (by decide) b hb)
      · exact .inr ⟨List.mem_singleton.1 (hreceiver.last (by decide) b hb), rfl⟩
      · exact .inl (hreceiver.last (by decide) b hb)
  | intersection hleft _ ihleft ihright =>
      exact ihleft.join hleft.ne_nil (.sign (by decide))
        (fun b hb _ => .inl (hleft.last (by decide) b hb)) ihright
  | variant hmodifier _ ih =>
      simp only [List.mem_cons, List.not_mem_nil, or_false] at hmodifier
      rcases hmodifier with rfl | rfl
      · exact .cons .inKeyword (by decide) ih
      · exact .name isName_out ih
  | star => exact .sign (by decide) (by decide) .nil
  | @named text row h _ ih =>
      have hname : Neat [Reading.name text] := .name h.toIsName .nil
      refine hname.join (List.cons_ne_nil _ _) (.sign (show .colon ∈ signs by decide)) ?_ ih
      rintro b ⟨⟩ -
      exact .inl (by simp [Reading.name])

theorem opening (h : TypeForm phrase row) : phrase ∉ [.argument, .parameter] → Opening row := by
  induction h with
  | simple h => exact fun _ => .name h.notSoft fun a ha => nomatch ha
  | generic h => exact fun _ => .name h.notSoft (head_sign (by decide))
  | segment _ ih => exact fun _ => ih (by decide)
  | qualified _ _ ih => exact fun _ => (ih (by decide)).append (head_sign (by decide))
  | parenthesized | function => exact fun _ => .paren
  | nullable n hphrase _ ih =>
      exact fun _ => (ih (notMem_of_whole _ ((by decide : _ ⊆ whole) hphrase))).append
        (head_sign (by decide))
  | extension hphrase _ _ ih =>
      exact fun _ => (ih (notMem_of_whole _ ((by decide : _ ⊆ whole) hphrase))).append
        (head_sign (by decide))
  | intersection _ _ ih => exact fun _ => (ih (by decide)).append (head_sign (by decide))
  | type hphrase _ ih => exact fun _ => ih (notMem_of_whole _ hphrase)
  | invariant | variant | star | unnamed | named => exact fun hphrase => absurd hphrase (by decide)

end TypeForm
end Reading
end AnnotationScan
