import AnnotationScan.Proofs.Token.Forms
import AnnotationScan.Token.Piece
import Mathlib.Data.List.Basic

/-!
# The classes of pieces

Every class of pieces begins with characters of its own, so that the first character of a text tells
which classes may read it.  The longest reading is that of a class, and no class reads more.
-/

namespace AnnotationScan.Piece

/-! ## The classes of pieces -/

def blanks : Reader := ofForm .blanks (Form.chain [Form.one isInlineBlank, Form.many isInlineBlank])

def lineFeed : Reader := ofForm .lineFeed (Form.one (· = '\n'))

def lineComment : Reader := ofForm .lineComment Form.lineComment

def quotedName : Reader := ofForm (.token .identifier) quotedWord

def characterLiteral : Reader := ofForm (.token .characterLiteral) Form.character

def openName : Reader := ofForm (.fault .unexpectedCharacter) openQuote

/-- A word that stands without quotes. -/
def plainWord : Reader :=
  ofForm (.token .identifier) (Form.chain [Form.one isWordStart, Form.many isWordPart])

def plainReaders : List Reader :=
  TokenKind.hardKeywords.map keyword ++ [plainWord] ++
  Form.integers.map (ofForm (.token .integerLiteral)) ++
  Form.floats.map (ofForm (.token .floatLiteral)) ++ TokenKind.signs.map spelled

theorem ofForm_eq_some {kind : PieceKind} {form : Form} {cs : List Char}
    {reading : PieceKind × Nat} :
    ofForm kind form cs = some reading ↔ ∃ n, form cs = some n ∧ (kind, n) = reading :=
  Option.map_eq_some_iff

theorem kind_of_ofForm {kind kind' : PieceKind} {form : Form} {cs : List Char} {n : Nat}
    (h : ofForm kind form cs = some (kind', n)) : kind = kind' := by
  obtain ⟨m, -, hreading⟩ := ofForm_eq_some.1 h
  exact (Prod.mk.inj hreading).1

theorem mem_readers {reader : Reader} (h : reader ∈ readers) :
    reader ∈ plainReaders ∨ reader = blanks ∨ reader = lineFeed ∨ reader = lineComment ∨
      reader = blockComment ∨ reader = quotedName ∨ reader = characterLiteral ∨
      reader = stringLiteral ∨ reader = rawStringLiteral ∨ reader = openName := by
  simp only [readers, List.mem_append, List.mem_cons, List.not_mem_nil, or_false] at h
  simp only [plainReaders, List.mem_append, List.mem_cons, List.not_mem_nil, or_false]
  change (((((((_ = blanks ∨ _ = lineFeed ∨ _ = lineComment ∨ _) ∨ _) ∨ _ = plainWord ∨
    _ = quotedName) ∨ _) ∨ _) ∨ _ = characterLiteral ∨ _) ∨ _) ∨ _ = openName at h
  grind

/-- Neither trivia nor a stray quote is ever read as a token. -/
theorem mem_readers_of_token {reader : Reader} (h : reader ∈ readers) {cs : List Char}
    {kind : TokenKind} {n : Nat} (hreading : reader cs = some (.token kind, n)) :
    reader ∈ plainReaders ∨ reader = quotedName ∨ reader = characterLiteral ∨
      reader = stringLiteral ∨ reader = rawStringLiteral := by
  rcases mem_readers h with
    hplain | rfl | rfl | rfl | rfl | hquoted | hcharacter | hstring | hraw | rfl
  · exact .inl hplain
  · cases kind_of_ofForm hreading
  · cases kind_of_ofForm hreading
  · cases kind_of_ofForm hreading
  · unfold blockComment at hreading
    split at hreading
    case h_1 => split at hreading <;> cases hreading
    case h_2 => cases hreading
  · exact .inr (.inl hquoted)
  · exact .inr (.inr (.inl hcharacter))
  · exact .inr (.inr (.inr (.inl hstring)))
  · exact .inr (.inr (.inr (.inr hraw)))
  · cases kind_of_ofForm hreading

theorem mem_plainReaders {reader : Reader} (h : reader ∈ plainReaders) :
    (∃ kind ∈ TokenKind.hardKeywords, reader = keyword kind) ∨
      (∃ kind ∈ TokenKind.signs, reader = spelled kind) ∨ reader = plainWord ∨
      ∃ kind, ∃ form ∈ Form.integers ++ Form.floats, reader = ofForm kind form := by
  simp only [plainReaders, List.mem_append, List.mem_map, List.mem_cons, List.not_mem_nil,
    or_false] at h
  rcases h with (((⟨kind, hkind, rfl⟩ | rfl) | ⟨form, hform, rfl⟩) | ⟨form, hform, rfl⟩) |
    ⟨kind, hkind, rfl⟩
  · exact .inl ⟨kind, hkind, rfl⟩
  · exact .inr (.inr (.inl rfl))
  · exact .inr (.inr (.inr ⟨_, form, List.mem_append_left _ hform, rfl⟩))
  · exact .inr (.inr (.inr ⟨_, form, List.mem_append_right _ hform, rfl⟩))
  · exact .inr (.inl ⟨kind, hkind, rfl⟩)

/-- A character that begins no blanks and no piece with a quote. -/
def isPlainStart (c : Char) : Bool := !" \t\r\x0c\n`'\"".toList.contains c

/-- A class of pieces that are not empty and begin with certain characters. -/
def Opens (holds : Char → Bool) (reader : Reader) : Prop :=
  ∀ cs reading, reader cs = some reading →
    0 < reading.2 ∧ ∃ c rest, cs = c :: rest ∧ holds c = true

namespace Opens

variable {holds : Char → Bool}

theorem ofForm {form : Form} {kind : PieceKind} (h : Form.Opens holds form) :
    Opens holds (ofForm kind form) := by
  intro cs reading hreading
  obtain ⟨n, hn, rfl⟩ := ofForm_eq_some.1 hreading
  exact h cs n hn

theorem spelled {kind : TokenKind}
    (h : kind ∈ TokenKind.hardKeywords ++ TokenKind.signs) : Opens isPlainStart (spelled kind) := by
  have hstart : (TokenKind.hardKeywords ++ TokenKind.signs).all (fun kind =>
      (kind.spelling?.getD "").toList.head?.any isPlainStart) = true := by decide
  have hhead := List.all_eq_true.1 hstart kind h
  apply ofForm
  cases hspelling : (kind.spelling?.getD "").toList with
  | nil => simp [hspelling] at hhead
  | cons c spelling =>
      rw [hspelling] at hhead
      exact .literal (by simpa using hhead)

theorem of_mem_plainReaders {reader : Reader} (h : reader ∈ plainReaders) :
    Opens isPlainStart reader := by
  have hplain : ∀ c, c.isDigit = true ∨ c = '.' ∨ isWordStart c = true →
      isPlainStart c = true := by
    have hother : " \t\r\x0c\n`'\"".toList.all (fun c =>
        !(c.isDigit || c = '.' || isWordStart c)) = true := by decide
    intro c hc
    cases hstart : isPlainStart c with
    | true => rfl
    | false =>
        rw [isPlainStart, Bool.not_eq_false', List.contains_iff_mem] at hstart
        have hfalse := List.all_eq_true.1 hother c hstart
        rcases hc with hc | hc | hc <;> simp [hc] at hfalse
  rcases mem_plainReaders h with ⟨kind, hkind, rfl⟩ | ⟨kind, hkind, rfl⟩ | rfl |
    ⟨kind, form, hform, rfl⟩
  · intro cs reading hreading
    have hspelled := (Option.filter_eq_some_iff.1 hreading).1
    exact spelled (List.mem_append_left _ hkind) cs reading hspelled
  · exact spelled (List.mem_append_right _ hkind)
  · exact .ofForm (.chain ((Form.Opens.one _).mono fun c hc => hplain c (.inr (.inr hc))))
  · apply ofForm
    apply (Form.Opens.of_mem_numbers hform).mono
    intro c hc
    rw [Bool.or_eq_true, decide_eq_true_eq] at hc
    exact hplain c (hc.imp id .inl)

theorem blockComment : Opens (· = '/') blockComment := by
  intro cs reading hreading
  unfold Piece.blockComment at hreading
  split at hreading
  case h_1 cs =>
    split at hreading
    all_goals
      obtain rfl := Option.some.inj hreading
      exact ⟨Nat.add_pos_left Nat.two_pos _, '/', '*' :: cs, rfl, rfl⟩
  case h_2 => cases hreading

theorem stringLiteral : Opens (· = '"') stringLiteral := by
  intro cs reading hreading
  unfold Piece.stringLiteral at hreading
  split at hreading
  case h_1 cs =>
    split at hreading
    all_goals
      obtain rfl := Option.some.inj hreading
      exact ⟨Nat.add_pos_left Nat.one_pos _, '"', cs, rfl, rfl⟩
  case h_2 => cases hreading

theorem rawStringLiteral : Opens (· = '"') rawStringLiteral := by
  intro cs reading hreading
  unfold Piece.rawStringLiteral at hreading
  split at hreading
  case h_1 cs =>
    split at hreading
    all_goals
      obtain rfl := Option.some.inj hreading
      exact ⟨Nat.add_pos_left (Nat.succ_pos 2) _, '"', '"' :: '"' :: cs, rfl, rfl⟩
  case h_2 => cases hreading

end Opens

/-- The character that the pieces of a class begin with. -/
inductive Starts (reader : Reader) (c : Char) : Prop
  | plain (hreader : reader ∈ plainReaders) (hc : isPlainStart c = true)
  | blanks (hreader : reader = blanks) (hc : isInlineBlank c = true)
  | lineFeed (hreader : reader = lineFeed) (hc : c = '\n')
  | comment (hreader : reader = lineComment ∨ reader = blockComment) (hc : c = '/')
  | name (hreader : reader = quotedName ∨ reader = openName) (hc : c = '`')
  | character (hreader : reader = characterLiteral) (hc : c = '\'')
  | string (hreader : reader = stringLiteral ∨ reader = rawStringLiteral) (hc : c = '"')

theorem starts_of_mem {reader : Reader} (h : reader ∈ readers) {cs : List Char}
    {reading : PieceKind × Nat} (hreading : reader cs = some reading) :
    0 < reading.2 ∧ ∃ c rest, cs = c :: rest ∧ Starts reader c := by
  have hstarts : ∀ {holds : Char → Bool}, Opens holds reader →
      (∀ c, holds c = true → Starts reader c) →
      0 < reading.2 ∧ ∃ c rest, cs = c :: rest ∧ Starts reader c := by
    intro holds hopens hstarts
    obtain ⟨hpos, c, rest, hcs, hc⟩ := hopens cs reading hreading
    exact ⟨hpos, c, rest, hcs, hstarts c hc⟩
  rcases mem_readers h with hplain | rfl | rfl | rfl | rfl | rfl | rfl | rfl | rfl | rfl
  · exact hstarts (.of_mem_plainReaders hplain) fun c hc => .plain hplain hc
  · exact hstarts (.ofForm (.chain (.one _))) fun c hc => .blanks rfl hc
  · exact hstarts (.ofForm (.one _)) fun c hc => .lineFeed rfl (of_decide_eq_true hc)
  · have hopens : Opens (· = '/') lineComment := .ofForm (.chain (.literal rfl))
    exact hstarts hopens fun c hc => .comment (.inl rfl) (of_decide_eq_true hc)
  · exact hstarts .blockComment fun c hc => .comment (.inr rfl) (of_decide_eq_true hc)
  · exact hstarts (.ofForm (.chain (.one _))) fun c hc => .name (.inl rfl) (of_decide_eq_true hc)
  · exact hstarts (.ofForm (.chain (.one _))) fun c hc => .character rfl (of_decide_eq_true hc)
  · exact hstarts .stringLiteral fun c hc => .string (.inl rfl) (of_decide_eq_true hc)
  · exact hstarts .rawStringLiteral fun c hc => .string (.inr rfl) (of_decide_eq_true hc)
  · exact hstarts (.ofForm (.chain (.one _))) fun c hc => .name (.inr rfl) (of_decide_eq_true hc)

namespace Starts

variable {reader : Reader} {c : Char}

theorem eq_blanks (h : Starts reader c) (hc : isInlineBlank c = true) :
    reader = Piece.blanks := by
  simp only [isInlineBlank, Bool.or_eq_true, decide_eq_true_eq] at hc
  cases h with
  | blanks hreader => exact hreader
  | plain _ hplain => rcases hc with ((rfl | rfl) | rfl) | rfl <;> exact absurd hplain (by decide)
  | lineFeed _ hc' | comment _ hc' | name _ hc' | character _ hc' | string _ hc' =>
      subst hc'
      exact absurd hc (by decide)

theorem eq_lineFeed (h : Starts reader '\n') : reader = Piece.lineFeed := by
  cases h with
  | lineFeed hreader => exact hreader
  | plain _ hc | blanks _ hc | comment _ hc | name _ hc | character _ hc | string _ hc =>
      exact absurd hc (by decide)

theorem of_slash (h : Starts reader '/') :
    reader ∈ plainReaders ∨ reader = lineComment ∨ reader = blockComment := by
  cases h with
  | plain hreader => exact .inl hreader
  | comment hreader => exact .inr hreader
  | blanks _ hc | lineFeed _ hc | name _ hc | character _ hc | string _ hc =>
      exact absurd hc (by decide)

theorem of_backQuote (h : Starts reader '`') : reader = quotedName ∨ reader = openName := by
  cases h with
  | name hreader => exact hreader
  | plain _ hc | blanks _ hc | lineFeed _ hc | comment _ hc | character _ hc | string _ hc =>
      exact absurd hc (by decide)

theorem of_quote (h : Starts reader '\'') : reader = characterLiteral := by
  cases h with
  | character hreader => exact hreader
  | plain _ hc | blanks _ hc | lineFeed _ hc | comment _ hc | name _ hc | string _ hc =>
      exact absurd hc (by decide)

theorem of_doubleQuote (h : Starts reader '"') :
    reader = stringLiteral ∨ reader = rawStringLiteral := by
  cases h with
  | string hreader => exact hreader
  | plain _ hc | blanks _ hc | lineFeed _ hc | comment _ hc | name _ hc | character _ hc =>
      exact absurd hc (by decide)

end Starts

/-- A second character behind a slash is an equals sign. -/
def slashThenEquals : List Char → Bool
  | '/' :: c :: _ => c = '='
  | _ => true

theorem le_one_of_mem_plainReaders {reader : Reader} (h : reader ∈ plainReaders) {d : Char}
    (hd : d ≠ '=') {cs : List Char} {reading : PieceKind × Nat}
    (hreading : reader ('/' :: d :: cs) = some reading) : reading.2 ≤ 1 := by
  have hslash : (TokenKind.hardKeywords ++ TokenKind.signs).all (fun kind =>
      slashThenEquals (kind.spelling?.getD "").toList) = true := by decide
  have hspelled : ∀ kind ∈ TokenKind.hardKeywords ++ TokenKind.signs, ∀ reading,
      spelled kind ('/' :: d :: cs) = some reading → reading.2 ≤ 1 := by
    intro kind hkind reading hreading
    have hslash := List.all_eq_true.1 hslash kind hkind
    obtain ⟨n, hn, rfl⟩ := ofForm_eq_some.1 hreading
    obtain ⟨rfl, rest, hrest⟩ := Form.literal_eq_some.1 hn
    generalize (kind.spelling?.getD "").toList = spelling at hslash hrest ⊢
    rcases spelling with - | ⟨c, - | ⟨e, spelling⟩⟩
    · exact Nat.zero_le 1
    · exact Nat.le_refl 1
    · obtain ⟨hc, htail⟩ := List.cons.inj hrest
      obtain rfl := (List.cons.inj htail).1
      subst hc
      exact absurd (of_decide_eq_true hslash) hd
  rcases mem_plainReaders h with ⟨kind, hkind, rfl⟩ | ⟨kind, hkind, rfl⟩ | rfl |
    ⟨kind, form, hform, rfl⟩
  · have hreading := (Option.filter_eq_some_iff.1 hreading).1
    exact hspelled kind (List.mem_append_left _ hkind) reading hreading
  · exact hspelled kind (List.mem_append_right _ hkind) reading hreading
  · obtain ⟨n, hn, rfl⟩ := ofForm_eq_some.1 hreading
    have hstart : isWordStart '/' = false := by decide
    simp [Form.chain, Form.one, hstart] at hn
  · obtain ⟨n, hn, rfl⟩ := ofForm_eq_some.1 hreading
    obtain ⟨-, c, rest, hcs, hc⟩ := Form.Opens.of_mem_numbers hform _ _ hn
    obtain rfl := (List.cons.inj hcs).1
    exact absurd hc (by decide)

/-! ## The longest reading -/

theorem longer_cases (best next : Option (PieceKind × Nat)) :
    longer best next = best ∨ longer best next = next := by
  unfold longer
  split
  · split
    · exact .inr rfl
    · exact .inl rfl
  · exact .inr rfl
  · exact .inl rfl

/-- A reading is at least as long as another one, if there is any reading. -/
def Reaches (best : Option (PieceKind × Nat)) (reading : PieceKind × Nat) : Prop :=
  ∃ top, best = some top ∧ reading.2 ≤ top.2

theorem reaches_longer {best next : Option (PieceKind × Nat)} {reading : PieceKind × Nat}
    (h : Reaches best reading ∨ next = some reading) : Reaches (longer best next) reading := by
  rcases h with ⟨⟨kind, length⟩, rfl, hle⟩ | rfl
  · cases next with
    | none => exact ⟨_, rfl, hle⟩
    | some next =>
        by_cases hlt : length < next.2
        · exact ⟨next, by simp [longer, hlt], Nat.le_trans hle (Nat.le_of_lt hlt)⟩
        · exact ⟨(kind, length), by simp [longer, hlt], hle⟩
  · cases best with
    | none => exact ⟨reading, rfl, Nat.le_refl _⟩
    | some best =>
        by_cases hlt : best.2 < reading.2
        · exact ⟨reading, by simp [longer, hlt], Nat.le_refl _⟩
        · exact ⟨best, by simp [longer, hlt], Nat.le_of_not_lt hlt⟩

theorem foldl_longer (cs : List Char) (rest : List Reader) (best : Option (PieceKind × Nat)) :
    let top := rest.foldl (fun best reader => longer best (reader cs)) best
    (top = best ∨ ∃ reader ∈ rest, reader cs = top) ∧
      ∀ reading, (Reaches best reading ∨ ∃ reader ∈ rest, reader cs = some reading) →
        Reaches top reading := by
  induction rest generalizing best with
  | nil => exact ⟨.inl rfl, fun reading h => h.elim id fun ⟨_, hmem, _⟩ => nomatch hmem⟩
  | cons reader rest ih =>
      obtain ⟨hmem, hreaches⟩ := ih (longer best (reader cs))
      refine ⟨?_, fun reading h => hreaches reading ?_⟩
      · rcases hmem with htop | ⟨reader', hreader', htop⟩
        · rcases longer_cases best (reader cs) with hbest | hbest
          · exact .inl (htop.trans hbest)
          · exact .inr ⟨reader, List.mem_cons_self, (htop.trans hbest).symm⟩
        · exact .inr ⟨reader', List.mem_cons_of_mem reader hreader', htop⟩
      · rcases h with hbest | ⟨reader', hreader', hreading⟩
        · exact .inl (reaches_longer (.inl hbest))
        · rcases List.mem_cons.1 hreader' with rfl | hreader'
          · exact .inl (reaches_longer (.inr hreading))
          · exact .inr ⟨reader', hreader', hreading⟩

theorem longest_mem (cs : List Char) :
    (∃ reader ∈ readers, reader cs = some (longest cs)) ∨
      (∀ reader ∈ readers, reader cs = none) ∧ longest cs = (.fault .unexpectedCharacter, 1) := by
  obtain ⟨htop, hreaches⟩ := foldl_longer cs readers none
  unfold longest
  generalize readers.foldl (fun best reader => longer best (reader cs)) none = top at htop hreaches
  cases top with
  | none =>
      refine .inr ⟨fun reader hreader => ?_, rfl⟩
      cases hreading : reader cs with
      | none => rfl
      | some reading =>
          obtain ⟨_, hnone, -⟩ := hreaches reading (.inr ⟨reader, hreader, hreading⟩)
          cases hnone
  | some reading =>
      rcases htop with hfalse | hmem
      · cases hfalse
      · exact .inl hmem

theorem longest_eq {cs : List Char} {own : Reader} (hown : own ∈ readers)
    {reading : PieceKind × Nat} (hreading : own cs = some reading)
    (honly : ∀ reader ∈ readers, ∀ reading, reader cs = some reading → reader = own) :
    longest cs = reading := by
  rcases longest_mem cs with ⟨reader, hreader, hlongest⟩ | ⟨hnone, -⟩
  · rw [honly reader hreader _ hlongest, hreading] at hlongest
    exact (Option.some.inj hlongest).symm
  · rw [hnone own hown] at hreading
    cases hreading

theorem le_longest {cs : List Char} {reader : Reader} (h : reader ∈ readers)
    {reading : PieceKind × Nat} (hreading : reader cs = some reading) :
    reading.2 ≤ (longest cs).2 := by
  obtain ⟨top, htop, hle⟩ := (foldl_longer cs readers none).2 reading (.inr ⟨reader, h, hreading⟩)
  unfold longest
  rw [htop]
  exact hle

theorem longest_congr {cs cs' : List Char} (h : ∀ reader ∈ readers, reader cs = reader cs') :
    longest cs = longest cs' := by
  rw [longest, longest, List.foldl_ext _ _ none fun best reader hreader => by
    rw [h reader hreader]]

theorem longest_pos (cs : List Char) : 0 < (longest cs).2 := by
  rcases longest_mem cs with ⟨reader, hreader, hreading⟩ | ⟨-, hlongest⟩
  · exact (starts_of_mem hreader hreading).1
  · rw [hlongest]
    exact Nat.one_pos

theorem atStart_lineFeed (cs : List Char) : atStart ('\n' :: cs) = ⟨.lineFeed, ['\n']⟩ := by
  have hfeed : lineFeed ('\n' :: cs) = some (.lineFeed, 1) := rfl
  have hmem : lineFeed ∈ readers := by simp [readers, lineFeed]
  have hlongest := longest_eq hmem hfeed fun reader hreader reading hreading => by
    obtain ⟨-, c, rest, hcs, hstarts⟩ := starts_of_mem hreader hreading
    obtain rfl := (List.cons.inj hcs).1
    exact hstarts.eq_lineFeed
  rw [atStart, hlongest]
  rfl

theorem atStart_blank {c : Char} (hc : isInlineBlank c = true) (cs : List Char) :
    atStart (c :: cs) = ⟨.blanks, c :: cs.takeWhile isInlineBlank⟩ := by
  have hblanks : blanks (c :: cs) =
      some (.blanks, 1 + (cs.takeWhile isInlineBlank).length) := by
    simp [blanks, ofForm, Form.chain, Form.one, Form.many, hc]
  have hmem : blanks ∈ readers := by simp [readers, blanks]
  have hlongest := longest_eq hmem hblanks fun reader hreader reading hreading => by
    obtain ⟨-, c', rest, hcs, hstarts⟩ := starts_of_mem hreader hreading
    obtain rfl := (List.cons.inj hcs).1
    exact hstarts.eq_blanks hc
  have htake : cs.take (cs.takeWhile isInlineBlank).length = cs.takeWhile isInlineBlank :=
    (List.prefix_iff_eq_take.1 (List.takeWhile_prefix _)).symm
  rw [atStart, hlongest]
  simp [Nat.add_comm 1, htake]

end AnnotationScan.Piece
