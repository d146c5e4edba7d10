/-!
# Positions in a model's source

A span says where a node starts and how long it is.  Positions are shown as `line:column`; the
length takes part in equality only.
-/

namespace ModelLang

/-- Where a node starts, and its length in bytes. -/
structure Span where
  /-- Line number, counted from one. -/
  line : Nat := 0
  /-- Column number in bytes, counted from one. -/
  column : Nat := 0
  /-- Length in bytes. -/
  length : Nat := 0
  deriving DecidableEq, Repr, Inhabited

namespace Span

/-- The position as it is shown in messages. -/
def text (span : Span) : String :=
  s!"{span.line}:{span.column}"

end Span

end ModelLang
