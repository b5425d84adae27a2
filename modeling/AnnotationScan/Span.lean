/-!
# Spans

A span is a range of bytes of a source text, first byte included and last one excluded.  Spans of
one text are joined by taking the smallest span over both.
-/

namespace AnnotationScan

structure Span where
  start : Nat
  stop : Nat
deriving DecidableEq, Repr, Inhabited

namespace Span

/-- The largest offset a span may have: offsets are 32 bits wide. -/
def largestOffset : Nat := 0xffffffff

/-- The end of a range that is too large for a span. -/
inductive RangeError where
  | start (offset : Nat)
  | stop (offset : Nat)
deriving DecidableEq, Repr

def RangeError.message : RangeError → String
  | .start offset => s!"span start {offset} exceeds u32::MAX"
  | .stop offset => s!"span end {offset} exceeds u32::MAX"

/-- The span over a range, if both ends are offsets; the start is looked at first. -/
def ofRange (start stop : Nat) : Except RangeError Span :=
  if largestOffset < start then .error (.start start)
  else if largestOffset < stop then .error (.stop stop)
  else .ok ⟨start, stop⟩

def point (offset : Nat) : Span := ⟨offset, offset⟩

def isEmpty (span : Span) : Bool := span.start == span.stop

/-- The number of bytes, unless the span is reversed. -/
def length? (span : Span) : Option Nat :=
  if span.start ≤ span.stop then some (span.stop - span.start) else none

def merge (a b : Span) : Span := ⟨min a.start b.start, max a.stop b.stop⟩

/-- A span as text: its two offsets with two dots between them. -/
def render (span : Span) : String := s!"{span.start}..{span.stop}"

@[simp] theorem merge_start (a b : Span) : (a.merge b).start = min a.start b.start := rfl

@[simp] theorem merge_stop (a b : Span) : (a.merge b).stop = max a.stop b.stop := rfl

theorem merge_comm (a b : Span) : a.merge b = b.merge a := by
  simp [merge, Nat.min_comm, Nat.max_comm]

theorem merge_assoc (a b c : Span) : (a.merge b).merge c = a.merge (b.merge c) := by
  simp [merge, Nat.min_assoc, Nat.max_assoc]

theorem merge_self (a : Span) : a.merge a = a := by simp [merge]

end Span
end AnnotationScan
