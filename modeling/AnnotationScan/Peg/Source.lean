import AnnotationScan.Span

/-!
# Sources of tokens

Rules read a finite row of lexemes that is closed by an end marker.  There is a lexeme at every
index, since every index behind the row reads the end marker, and the marker is never passed.
-/

namespace AnnotationScan.Peg

/-- What a kind of token is called in messages. -/
class Describe (κ : Type) where
  describe : κ → String

/-- A token as rules see it. -/
structure Lexeme (κ : Type) where
  kind : κ
  span : Span
  text : String
  /-- Whether the token may serve as an identifier or a soft keyword. -/
  isWord : Bool
  /-- Whether a line break separates the token from the one before it. -/
  newlineBefore : Bool

/-- The lexemes in front of the end marker, and the marker. -/
structure Source (κ : Type) where
  body : Array (Lexeme κ)
  marker : Lexeme κ

namespace Source

variable {κ : Type} (source : Source κ)

def size : Nat := source.body.size + 1

def last : Nat := source.body.size

def lexeme (index : Nat) : Lexeme κ := source.body.getD index source.marker

def offset (index : Nat) : Nat := (source.lexeme index).span.start

/-- The index behind a token; the end marker is not passed. -/
def next (index : Nat) : Nat := min (index + 1) source.last

/-- The span of the tokens from `start` up to `stop`, or a point at `stop` if there are none. -/
def spanFrom (start stop : Nat) : Span :=
  if stop ≤ start then Span.point (source.offset stop)
  else (source.lexeme start).span.merge (source.lexeme (stop - 1)).span

theorem lexeme_of_last_le {index : Nat} (h : source.last ≤ index) :
    source.lexeme index = source.marker := by
  simp [lexeme, Array.getD, Nat.not_lt.2 (show source.body.size ≤ index from h)]

theorem next_le_last (index : Nat) : source.next index ≤ source.last :=
  Nat.min_le_right _ _

theorem le_next {index : Nat} (h : index ≤ source.last) : index ≤ source.next index :=
  Nat.le_min.2 ⟨Nat.le_succ index, h⟩

@[simp] theorem spanFrom_self (index : Nat) :
    source.spanFrom index index = Span.point (source.offset index) := by
  simp [spanFrom]

end Source
end AnnotationScan.Peg
