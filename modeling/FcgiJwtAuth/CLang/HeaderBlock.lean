import FcgiJwtAuth.CLang.Bytes

/-!
# Reading a header block

A response begins with its header lines, up to an empty one; each line is a name and a value, cut
at the first `:`. A field that is written on a line of its own is read back, if no line break is
in it. What stands behind a line break is read as a line of its own.
-/

namespace CLang

/-- The end of a line. -/
def crlf : Bytes := [ch '\r', ch '\n']

/-- A line without the carriage return at its end. -/
def chomp (line : Bytes) : Bytes :=
  if line.getLast? = some (ch '\r') then line.dropLast else line

/-- The name and the value of a line. -/
def readField (line : Bytes) : Option (Bytes × Bytes) :=
  if ch ':' ∈ line then some (upTo (ch ':') line, (after (ch ':') line).dropWhile (· = ch ' '))
  else none

/-- The lines in front of the empty one. -/
def headerLines (response : Bytes) : List Bytes :=
  ((response.splitOn (ch '\n')).map chomp).takeWhile (· ≠ [])

/-- The fields of a response. -/
def readFields (response : Bytes) : List (Bytes × Bytes) :=
  (headerLines response).filterMap readField

/-- The values of the fields with a name. -/
def fieldValues (name : Bytes) (response : Bytes) : List Bytes :=
  ((readFields response).filter (·.1 = name)).map (·.2)

variable {line name value rest : Bytes}

theorem chomp_concat (line : Bytes) : chomp (line ++ [ch '\r']) = line := by
  rw [chomp, List.getLast?_concat, if_pos rfl, List.dropLast_concat]

/-- The first line, and the lines behind it. -/
theorem headerLines_line (hline : ch '\n' ∉ line) (hne : line ≠ []) (rest : Bytes) :
    headerLines (line ++ crlf ++ rest) = line :: headerLines rest := by
  have hbreak : ch '\n' ∉ line ++ [ch '\r'] := by
    have hcr : ch '\n' ≠ ch '\r' := by decide
    simp [hline, hcr]
  have hshape : line ++ crlf ++ rest = (line ++ [ch '\r']) ++ ch '\n' :: rest := by simp [crlf]
  rw [hshape, headerLines, List.splitOn_append_cons_self_of_not_mem hbreak, List.map_cons,
    chomp_concat, List.takeWhile_cons_of_pos (by simpa using hne)]
  rfl

/-- Behind an empty line there is no field. -/
theorem headerLines_blank (rest : Bytes) : headerLines (crlf ++ rest) = [] := by
  have hbreak : ch '\n' ∉ [ch '\r'] := by decide
  have hshape : crlf ++ rest = [ch '\r'] ++ ch '\n' :: rest := rfl
  rw [hshape, headerLines, List.splitOn_append_cons_self_of_not_mem hbreak]
  rfl

@[simp] theorem readFields_blank (rest : Bytes) : readFields (crlf ++ rest) = [] := by
  rw [readFields, headerLines_blank]
  rfl

/-- **A field on its line** is read back, and then the rest is read. -/
theorem readFields_field (hcolon : ch ':' ∉ name) (hname : ch '\n' ∉ name)
    (hvalue : ch '\n' ∉ value) (rest : Bytes) :
    readFields (name ++ bytes ": " ++ value ++ crlf ++ rest) =
      (name, value.dropWhile (· = ch ' ')) :: readFields rest := by
  have hsep : bytes ": " = [ch ':', ch ' '] := by decide
  have hline : ch '\n' ∉ name ++ bytes ": " ++ value := by
    have hne : ch '\n' ∉ bytes ": " := by decide
    simp [hname, hvalue, hne]
  have hfield : readField (name ++ bytes ": " ++ value) =
      some (name, value.dropWhile (· = ch ' ')) := by
    rw [hsep, readField, if_pos (by simp), List.append_assoc, List.cons_append,
      upTo_append_cons hcolon, after_append_cons hcolon]
    rfl
  rw [readFields, headerLines_line hline (by rw [hsep]; simp),
    List.filterMap_cons_some hfield]
  rfl

end CLang
