import ModelLang.Diagnostic

/-!
# Reports

A report keeps diagnostics in the order they were found, up to a limit, and counts the rest.  What
it holds after adding a sequence of errors is the longest initial part that fits and the number of
the others.
-/

namespace ModelLang

/-- Diagnostics in the order they were found, up to a limit. -/
structure Report where
  /-- The diagnostics that were kept. -/
  kept : List Diagnostic := []
  /-- How many more were found. -/
  dropped : Nat := 0
  /-- How many are kept at most; zero keeps all. -/
  limit : Nat := 0
  deriving DecidableEq, Repr

namespace Report

/-- The empty report that keeps at most `limit` diagnostics, or all when `limit` is zero. -/
def withLimit (limit : Nat) : Report :=
  { limit }

/-- No further diagnostic is kept. -/
def isFull (report : Report) : Bool :=
  report.limit != 0 && decide (report.limit ≤ report.kept.length)

/-- Keep a diagnostic, or count it when the report is full. -/
def add (report : Report) (error : Diagnostic) : Report :=
  if report.isFull then { report with dropped := report.dropped + 1 }
  else { report with kept := report.kept ++ [error] }

/-- Add diagnostics from first to last. -/
def addAll (report : Report) (errors : List Diagnostic) : Report :=
  errors.foldl add report

/-- Nothing was kept. -/
def isEmpty (report : Report) : Bool :=
  report.kept.isEmpty

/-- The first diagnostic that was kept. -/
def first? (report : Report) : Option Diagnostic :=
  report.kept.head?

/-- One message on a line, and a last line with the number of diagnostics that were dropped. -/
def text (report : Report) : String :=
  let messages := report.kept.map Diagnostic.message
  let rest := if report.dropped = 0 then [] else [s!"... and {report.dropped} more"]
  String.intercalate "\n" (messages ++ rest)

@[simp]
theorem addAll_nil (report : Report) : report.addAll [] = report := rfl

@[simp]
theorem addAll_cons (report : Report) (error : Diagnostic) (errors : List Diagnostic) :
    report.addAll (error :: errors) = (report.add error).addAll errors := rfl

theorem addAll_append (report : Report) (errors more : List Diagnostic) :
    report.addAll (errors ++ more) = (report.addAll errors).addAll more := by
  simp [addAll]

end Report

end ModelLang
