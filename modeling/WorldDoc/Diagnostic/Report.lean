import WorldDoc.Diagnostic.Basic
import WorldDoc.Text.Position

/-!
# Reports of diagnostics

Diagnostics from several sources are listed together in order of their place, and each is written
on one line, with the line and column of its start when the text is at hand.
-/

namespace WorldDoc.Diagnostic

/-- The order of a report: by start, end, code and message. Texts compare by code point. -/
def precedes (a b : Diagnostic) : Bool :=
  a.range.start < b.range.start || (a.range.start == b.range.start &&
    (a.range.stop < b.range.stop || (a.range.stop == b.range.stop &&
      (a.code < b.code || (a.code == b.code && a.message ≤ b.message)))))

/-- All diagnostics of some groups in the order of a report. Those that compare equal keep the order
in which they came. -/
def collect (groups : List (List Diagnostic)) : List Diagnostic :=
  groups.flatten.mergeSort precedes

/-- Whether one of the diagnostics is an error. -/
def anyError (diagnostics : List Diagnostic) : Bool :=
  diagnostics.any fun d => d.severity == .error

/-- A diagnostic on one line: the path and the position as far as they are known, then severity,
code and message, then a hint if there is one to give. -/
def render (d : Diagnostic) (source path : Option String := none) : String :=
  let position := match source with
    | none => ""
    | some text => ((LineIndex.ofText text.toList).lineCol d.range.start).display ++ ": "
  let place := match path with
    | none => position
    | some p => if position.isEmpty then p ++ ": " else p ++ ":" ++ position
  let hint := match d.hint with
    | none | some "" => ""
    | some h => s!" (hint: {h})"
  s!"{place}{d.severity.word}[{d.code}] {d.message}{hint}"

end WorldDoc.Diagnostic
