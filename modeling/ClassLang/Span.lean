/-!
# Source spans

Every token, syntax node and diagnostic carries the place in the source that it
talks about: the line and column where it starts and its length.  Lines and
columns count from one; columns and lengths count bytes.
-/

namespace ClassLang

/-- A region of source text, identified by where it starts. -/
structure Span where
  line : Nat := 0
  col : Nat := 0
  len : Nat := 0
  deriving DecidableEq, Repr, Inhabited

namespace Span

/-- The empty span at a position. -/
def point (line col : Nat) : Span := ⟨line, col, 0⟩

/-- Whether the span covers no text. -/
def isEmpty (s : Span) : Bool := s.len == 0

/-- The span from the start of `a` that also covers `b`.

Spans that start on one line give their hull.  Spans on different lines keep
the start of `a` and add the lengths: the length of such a span is a lower bound
only. -/
def merge (a b : Span) : Span :=
  if a.line = b.line then
    let start := min a.col b.col
    ⟨a.line, start, max (a.col + a.len) (b.col + b.len) - start⟩
  else
    ⟨a.line, a.col, a.len + b.len⟩

/-- A span is shown as the position where it starts. -/
def text (s : Span) : String := toString s.line ++ ":" ++ toString s.col

instance : ToString Span := ⟨text⟩

/-- Positions in reading order: by line, then by column. -/
def startsBefore (a b : Span) : Bool :=
  a.line < b.line || (a.line == b.line && a.col < b.col)

/-- Merging never changes the line. -/
@[simp] theorem merge_line (a b : Span) : (a.merge b).line = a.line := by
  unfold merge; split <;> rfl

/-- A span merged with itself is itself. -/
@[simp] theorem merge_self (a : Span) : a.merge a = a := by
  simp [merge]

end Span

end ClassLang
