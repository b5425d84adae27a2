import AnnotationScan.Token.StringLiteral

/-!
# The grammar of string bodies

What a string literal is, said of its bytes: a body is a sequence of escapes, templates and plain
bytes up to a quote, and a template is a sequence of balanced braces, strings and other bytes.  What
a place inside a literal still demands of the text behind it is a body or the rest of a template,
followed by what the place outside demands; each kind of byte changes the demand in one way.
-/

namespace AnnotationScan

namespace StringByte

abbrev quote : UInt8 := '"'.toUInt8
abbrev backslash : UInt8 := '\\'.toUInt8
abbrev dollar : UInt8 := '$'.toUInt8
abbrev openBrace : UInt8 := '\x7b'.toUInt8
abbrev closeBrace : UInt8 := '\x7d'.toUInt8
abbrev lineFeed : UInt8 := '\n'.toUInt8

/-- A backslash and any byte but a line feed. -/
def StartsEscape (bytes : List UInt8) : Prop :=
  ∃ b rest, bytes = backslash :: b :: rest ∧ b ≠ lineFeed

def StartsTemplate (bytes : List UInt8) : Prop :=
  ∃ rest, bytes = dollar :: openBrace :: rest

theorem not_startsTemplate {b : UInt8} : ¬StartsTemplate [b] := by
  rintro ⟨rest, hrest⟩
  cases hrest

end StringByte

open StringByte

mutual

/-- The body of a string, its closing quote included. -/
inductive StringBody : List UInt8 → Prop
  | close : StringBody [quote]
  | escape {b : UInt8} {rest : List UInt8} (hb : b ≠ lineFeed) (hrest : StringBody rest) :
      StringBody (backslash :: b :: rest)
  | template {inner rest : List UInt8} (hinner : TemplateItems inner) (hrest : StringBody rest) :
      StringBody (dollar :: openBrace :: (inner ++ closeBrace :: rest))
  | plain {b : UInt8} {rest : List UInt8} (hquote : b ≠ quote) (hfeed : b ≠ lineFeed)
      (hescape : ¬StartsEscape (b :: rest)) (htemplate : ¬StartsTemplate (b :: rest))
      (hrest : StringBody rest) : StringBody (b :: rest)

/-- What may stand between the braces of a template. -/
inductive TemplateItems : List UInt8 → Prop
  | nil : TemplateItems []
  | braces {inner rest : List UInt8} (hinner : TemplateItems inner) (hrest : TemplateItems rest) :
      TemplateItems (openBrace :: (inner ++ closeBrace :: rest))
  | string {inner rest : List UInt8} (hinner : StringBody inner) (hrest : TemplateItems rest) :
      TemplateItems (quote :: (inner ++ rest))
  | other {b : UInt8} {rest : List UInt8} (hb : b ∉ [openBrace, closeBrace, quote, lineFeed])
      (hrest : TemplateItems rest) : TemplateItems (b :: rest)

end

variable {b : UInt8} {bytes : List UInt8}

namespace StringBody

theorem not_nil : ¬StringBody [] := nofun

theorem cons_iff : StringBody (b :: bytes) ↔
    (b = quote ∧ bytes = []) ∨
    (b = backslash ∧ ∃ c rest, bytes = c :: rest ∧ c ≠ lineFeed ∧ StringBody rest) ∨
    (b = dollar ∧ ∃ inner rest, bytes = openBrace :: (inner ++ closeBrace :: rest) ∧
      TemplateItems inner ∧ StringBody rest) ∨
    (b ≠ quote ∧ b ≠ lineFeed ∧ ¬StartsEscape (b :: bytes) ∧ ¬StartsTemplate (b :: bytes) ∧
      StringBody bytes) := by
  constructor
  · generalize htext : b :: bytes = text
    intro h
    cases h with
    | close =>
        obtain ⟨rfl, rfl⟩ := List.cons.inj htext
        exact .inl ⟨rfl, rfl⟩
    | escape hb hrest =>
        obtain ⟨rfl, rfl⟩ := List.cons.inj htext
        exact .inr (.inl ⟨rfl, _, _, rfl, hb, hrest⟩)
    | template hinner hrest =>
        obtain ⟨rfl, rfl⟩ := List.cons.inj htext
        exact .inr (.inr (.inl ⟨rfl, _, _, rfl, hinner, hrest⟩))
    | plain hquote hfeed hescape htemplate hrest =>
        obtain ⟨rfl, rfl⟩ := List.cons.inj htext
        exact .inr (.inr (.inr ⟨hquote, hfeed, hescape, htemplate, hrest⟩))
  · rintro (⟨rfl, rfl⟩ | ⟨rfl, c, rest, rfl, hc, hrest⟩ | ⟨rfl, inner, rest, rfl, hinner, hrest⟩ |
      ⟨hquote, hfeed, hescape, htemplate, hrest⟩)
    · exact .close
    · exact .escape hc hrest
    · exact .template hinner hrest
    · exact .plain hquote hfeed hescape htemplate hrest

theorem quote_iff : StringBody (quote :: bytes) ↔ bytes = [] := by
  simp [cons_iff, show quote ≠ backslash by decide, show quote ≠ dollar by decide]

theorem not_lineFeed : ¬StringBody (lineFeed :: bytes) := by
  simp [cons_iff, show lineFeed ≠ quote by decide, show lineFeed ≠ backslash by decide,
    show lineFeed ≠ dollar by decide]

/-- A backslash is never plain: behind it there is a byte, and that is no line feed. -/
theorem backslash_iff : StringBody (backslash :: bytes) ↔
    ∃ c rest, bytes = c :: rest ∧ c ≠ lineFeed ∧ StringBody rest := by
  constructor
  · intro h
    rcases cons_iff.1 h with ⟨hb, -⟩ | ⟨-, hescape⟩ | ⟨hb, -⟩ | ⟨-, -, hplain, -, hrest⟩
    · exact absurd hb (by decide)
    · exact hescape
    · exact absurd hb (by decide)
    · cases bytes with
      | nil => exact absurd hrest not_nil
      | cons c rest =>
          by_cases hc : c = lineFeed
          · exact absurd (hc ▸ hrest) not_lineFeed
          · exact absurd ⟨c, rest, rfl, hc⟩ hplain
  · rintro ⟨c, rest, rfl, hc, hrest⟩
    exact .escape hc hrest

theorem template_iff : StringBody (dollar :: openBrace :: bytes) ↔
    ∃ inner rest, bytes = inner ++ closeBrace :: rest ∧ TemplateItems inner ∧ StringBody rest := by
  constructor
  · intro h
    rcases cons_iff.1 h with ⟨hb, -⟩ | ⟨hb, -⟩ | ⟨-, inner, rest, htext, hinner, hrest⟩ |
      ⟨-, -, -, hplain, -⟩
    · exact absurd hb (by decide)
    · exact absurd hb (by decide)
    · exact ⟨inner, rest, (List.cons.inj htext).2, hinner, hrest⟩
    · exact absurd ⟨bytes, rfl⟩ hplain
  · rintro ⟨inner, rest, rfl, hinner, hrest⟩
    exact .template hinner hrest

theorem plain_iff (hquote : b ≠ quote) (hfeed : b ≠ lineFeed) (hescape : b ≠ backslash)
    (htemplate : ¬StartsTemplate (b :: bytes)) : StringBody (b :: bytes) ↔ StringBody bytes := by
  constructor
  · intro h
    rcases cons_iff.1 h with ⟨hb, -⟩ | ⟨hb, -⟩ | ⟨rfl, inner, rest, rfl, -⟩ | ⟨-, -, -, -, hrest⟩
    · exact absurd hb hquote
    · exact absurd hb hescape
    · exact absurd ⟨_, rfl⟩ htemplate
    · exact hrest
  · refine .plain hquote hfeed ?_ htemplate
    rintro ⟨c, rest, htext, -⟩
    exact hescape (List.cons.inj htext).1

end StringBody

namespace TemplateItems

theorem cons_iff : TemplateItems (b :: bytes) ↔
    (b = openBrace ∧ ∃ inner rest, bytes = inner ++ closeBrace :: rest ∧ TemplateItems inner ∧
      TemplateItems rest) ∨
    (b = quote ∧ ∃ inner rest, bytes = inner ++ rest ∧ StringBody inner ∧ TemplateItems rest) ∨
    (b ∉ [openBrace, closeBrace, quote, lineFeed] ∧ TemplateItems bytes) := by
  constructor
  · generalize htext : b :: bytes = text
    intro h
    cases h with
    | nil => cases htext
    | braces hinner hrest =>
        obtain ⟨rfl, rfl⟩ := List.cons.inj htext
        exact .inl ⟨rfl, _, _, rfl, hinner, hrest⟩
    | string hinner hrest =>
        obtain ⟨rfl, rfl⟩ := List.cons.inj htext
        exact .inr (.inl ⟨rfl, _, _, rfl, hinner, hrest⟩)
    | other hb hrest =>
        obtain ⟨rfl, rfl⟩ := List.cons.inj htext
        exact .inr (.inr ⟨hb, hrest⟩)
  · rintro (⟨rfl, inner, rest, rfl, hinner, hrest⟩ | ⟨rfl, inner, rest, rfl, hinner, hrest⟩ |
      ⟨hb, hrest⟩)
    · exact .braces hinner hrest
    · exact .string hinner hrest
    · exact .other hb hrest

theorem openBrace_iff : TemplateItems (openBrace :: bytes) ↔
    ∃ inner rest, bytes = inner ++ closeBrace :: rest ∧ TemplateItems inner ∧
      TemplateItems rest := by
  simp [cons_iff, show openBrace ≠ quote by decide]

theorem quote_iff : TemplateItems (quote :: bytes) ↔
    ∃ inner rest, bytes = inner ++ rest ∧ StringBody inner ∧ TemplateItems rest := by
  simp [cons_iff, show quote ≠ openBrace by decide]

theorem not_closeBrace : ¬TemplateItems (closeBrace :: bytes) := by
  simp [cons_iff, show closeBrace ≠ quote by decide, show closeBrace ≠ openBrace by decide]

theorem not_lineFeed : ¬TemplateItems (lineFeed :: bytes) := by
  simp [cons_iff, show lineFeed ≠ quote by decide, show lineFeed ≠ openBrace by decide]

theorem other_iff (hb : b ∉ [openBrace, closeBrace, quote, lineFeed]) :
    TemplateItems (b :: bytes) ↔ TemplateItems bytes := by
  refine ⟨fun h => ?_, .other hb⟩
  rcases cons_iff.1 h with ⟨rfl, -⟩ | ⟨rfl, -⟩ | ⟨-, hrest⟩
  · exact absurd (by simp) hb
  · exact absurd (by simp) hb
  · exact hrest

end TemplateItems

/-! ## What is still demanded -/

/-- A body of a string, and behind it what `next` demands. -/
def BodyThen (next : List UInt8 → Prop) (bytes : List UInt8) : Prop :=
  ∃ inner rest, bytes = inner ++ rest ∧ StringBody inner ∧ next rest

/-- The rest of a template up to its closing brace, and behind it what `next` demands. -/
def ItemsThen (next : List UInt8 → Prop) (bytes : List UInt8) : Prop :=
  ∃ inner rest, bytes = inner ++ closeBrace :: rest ∧ TemplateItems inner ∧ next rest

variable {next : List UInt8 → Prop}

namespace BodyThen

theorem not_nil : ¬BodyThen next [] := by
  rintro ⟨inner, rest, htext, hinner, -⟩
  obtain ⟨rfl, -⟩ := List.append_eq_nil_iff.1 htext.symm
  exact StringBody.not_nil hinner

theorem cons_iff : BodyThen next (b :: bytes) ↔
    ∃ inner rest, bytes = inner ++ rest ∧ StringBody (b :: inner) ∧ next rest := by
  constructor
  · rintro ⟨inner, rest, htext, hinner, hrest⟩
    cases inner with
    | nil => exact absurd hinner StringBody.not_nil
    | cons c inner =>
        obtain ⟨rfl, rfl⟩ := List.cons.inj htext
        exact ⟨inner, rest, rfl, hinner, hrest⟩
  · rintro ⟨inner, rest, rfl, hinner, hrest⟩
    exact ⟨b :: inner, rest, rfl, hinner, hrest⟩

theorem quote_iff : BodyThen next (quote :: bytes) ↔ next bytes := by
  rw [cons_iff]
  constructor
  · rintro ⟨inner, rest, rfl, hinner, hrest⟩
    obtain rfl := StringBody.quote_iff.1 hinner
    exact hrest
  · exact fun h => ⟨[], bytes, rfl, .close, h⟩

theorem not_lineFeed : ¬BodyThen next (lineFeed :: bytes) := by
  rw [cons_iff]
  rintro ⟨inner, rest, -, hinner, -⟩
  exact StringBody.not_lineFeed hinner

theorem not_backslash : ¬BodyThen next [backslash] := by
  rw [cons_iff]
  rintro ⟨inner, rest, htext, hinner, -⟩
  obtain ⟨rfl, -⟩ := List.append_eq_nil_iff.1 htext.symm
  obtain ⟨c, rest, hrest, -⟩ := StringBody.backslash_iff.1 hinner
  cases hrest

theorem escape_iff : BodyThen next (backslash :: b :: bytes) ↔
    b ≠ lineFeed ∧ BodyThen next bytes := by
  rw [cons_iff]
  constructor
  · rintro ⟨inner, rest, htext, hinner, hrest⟩
    obtain ⟨c, body, rfl, hc, hbody⟩ := StringBody.backslash_iff.1 hinner
    obtain ⟨rfl, rfl⟩ := List.cons.inj htext
    exact ⟨hc, body, rest, rfl, hbody, hrest⟩
  · rintro ⟨hb, inner, rest, rfl, hinner, hrest⟩
    exact ⟨b :: inner, rest, rfl, .escape hb hinner, hrest⟩

theorem template_iff : BodyThen next (dollar :: openBrace :: bytes) ↔
    ItemsThen (BodyThen next) bytes := by
  rw [cons_iff]
  constructor
  · rintro ⟨inner, rest, htext, hinner, hrest⟩
    cases inner with
    | nil =>
        have hplain := (StringBody.plain_iff (by decide) (by decide) (by decide)
          not_startsTemplate).1 hinner
        exact absurd hplain StringBody.not_nil
    | cons c inner =>
        obtain ⟨rfl, rfl⟩ := List.cons.inj htext
        obtain ⟨items, body, rfl, hitems, hbody⟩ := StringBody.template_iff.1 hinner
        exact ⟨items, body ++ rest, by simp, hitems, body, rest, rfl, hbody, hrest⟩
  · rintro ⟨items, rest, rfl, hitems, body, rest, rfl, hbody, hrest⟩
    exact ⟨openBrace :: (items ++ closeBrace :: body), rest, by simp, .template hitems hbody, hrest⟩

theorem plain_iff (hquote : b ≠ quote) (hfeed : b ≠ lineFeed) (hescape : b ≠ backslash)
    (htemplate : ¬StartsTemplate (b :: bytes)) :
    BodyThen next (b :: bytes) ↔ BodyThen next bytes := by
  have hinner : ∀ {inner rest : List UInt8}, bytes = inner ++ rest →
      ¬StartsTemplate (b :: inner) := by
    rintro inner rest rfl ⟨more, hmore⟩
    obtain ⟨rfl, rfl⟩ := List.cons.inj hmore
    exact htemplate ⟨more ++ rest, rfl⟩
  rw [cons_iff]
  constructor
  · rintro ⟨inner, rest, htext, hbody, hrest⟩
    exact ⟨inner, rest, htext,
      (StringBody.plain_iff hquote hfeed hescape (hinner htext)).1 hbody, hrest⟩
  · rintro ⟨inner, rest, htext, hbody, hrest⟩
    exact ⟨inner, rest, htext,
      (StringBody.plain_iff hquote hfeed hescape (hinner htext)).2 hbody, hrest⟩

end BodyThen

namespace ItemsThen

theorem not_nil : ¬ItemsThen next [] := by
  rintro ⟨inner, rest, htext, -, -⟩
  cases inner <;> cases htext

theorem closeBrace_iff : ItemsThen next (closeBrace :: bytes) ↔ next bytes := by
  constructor
  · rintro ⟨inner, rest, htext, hinner, hrest⟩
    cases inner with
    | nil =>
        obtain rfl := (List.cons.inj htext).2
        exact hrest
    | cons c inner =>
        obtain ⟨rfl, -⟩ := List.cons.inj htext
        exact absurd hinner TemplateItems.not_closeBrace
  · exact fun h => ⟨[], bytes, rfl, .nil, h⟩

theorem cons_iff (hb : b ≠ closeBrace) : ItemsThen next (b :: bytes) ↔
    ∃ inner rest, bytes = inner ++ closeBrace :: rest ∧ TemplateItems (b :: inner) ∧ next rest := by
  constructor
  · rintro ⟨inner, rest, htext, hinner, hrest⟩
    cases inner with
    | nil => exact absurd (List.cons.inj htext).1 hb
    | cons c inner =>
        obtain ⟨rfl, rfl⟩ := List.cons.inj htext
        exact ⟨inner, rest, rfl, hinner, hrest⟩
  · rintro ⟨inner, rest, rfl, hinner, hrest⟩
    exact ⟨b :: inner, rest, rfl, hinner, hrest⟩

theorem openBrace_iff :
    ItemsThen next (openBrace :: bytes) ↔ ItemsThen (ItemsThen next) bytes := by
  rw [cons_iff (by decide)]
  constructor
  · rintro ⟨inner, rest, rfl, hinner, hrest⟩
    obtain ⟨items, more, rfl, hitems, hmore⟩ := TemplateItems.openBrace_iff.1 hinner
    exact ⟨items, more ++ closeBrace :: rest, by simp, hitems, more, rest, rfl, hmore, hrest⟩
  · rintro ⟨items, rest, rfl, hitems, more, rest, rfl, hmore, hrest⟩
    exact ⟨items ++ closeBrace :: more, rest, by simp, .braces hitems hmore, hrest⟩

theorem quote_iff : ItemsThen next (quote :: bytes) ↔ BodyThen (ItemsThen next) bytes := by
  rw [cons_iff (by decide)]
  constructor
  · rintro ⟨inner, rest, rfl, hinner, hrest⟩
    obtain ⟨body, more, rfl, hbody, hmore⟩ := TemplateItems.quote_iff.1 hinner
    exact ⟨body, more ++ closeBrace :: rest, by simp, hbody, more, rest, rfl, hmore, hrest⟩
  · rintro ⟨body, rest, rfl, hbody, more, rest, rfl, hmore, hrest⟩
    exact ⟨body ++ more, rest, by simp, .string hbody hmore, hrest⟩

theorem not_lineFeed : ¬ItemsThen next (lineFeed :: bytes) := by
  rw [cons_iff (by decide)]
  rintro ⟨inner, rest, -, hinner, -⟩
  exact TemplateItems.not_lineFeed hinner

theorem other_iff (hb : b ∉ [openBrace, closeBrace, quote, lineFeed]) :
    ItemsThen next (b :: bytes) ↔ ItemsThen next bytes := by
  rw [cons_iff fun hclose => hb (by simp [hclose])]
  simp only [TemplateItems.other_iff hb]
  rfl

end ItemsThen

end AnnotationScan
