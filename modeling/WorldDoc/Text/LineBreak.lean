/-!
# Line breaks

Files write the end of a line as LF, as CR LF, or as a lone CR. A file's text is read with every one
of them turned into LF.
-/

namespace WorldDoc.LineBreak

/-- What one character adds in front of a text that is read already. The flag says whether that text
began with a line feed of its own, which takes in a carriage return before it. -/
def prepend (c : Char) : List Char × Bool → List Char × Bool
  | (text, feed) =>
    if c = '\r' then (if feed then text else '\n' :: text, false) else (c :: text, c = '\n')

/-- Writes every line break as a single line feed. -/
def normalize (text : List Char) : List Char := (text.foldr prepend ([], false)).1

/-- An empty text has no line breaks to rewrite. -/
@[simp] theorem normalize_nil : normalize [] = [] := rfl

/-- A carriage return and the line feed after it are one break. -/
@[simp] theorem normalize_crlf (text : List Char) :
    normalize ('\r' :: '\n' :: text) = '\n' :: normalize text := rfl

/-- A carriage return that no line feed follows is a break by itself. -/
theorem normalize_cr {text : List Char} (h : text.head? ≠ some '\n') :
    normalize ('\r' :: text) = '\n' :: normalize text := by
  cases text with
  | nil => rfl
  | cons c rest =>
    have hc : c ≠ '\n' := by simpa using h
    by_cases hr : c = '\r' <;> simp [normalize, prepend, hr, hc]

/-- Any character but a carriage return stays as it is. -/
theorem normalize_cons {c : Char} (h : c ≠ '\r') (text : List Char) :
    normalize (c :: text) = c :: normalize text := by
  simp [normalize, prepend, h]

end WorldDoc.LineBreak
