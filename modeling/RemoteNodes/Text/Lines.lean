/-!
Line breaks. A file may end its lines with a line feed, a carriage return or both; a text read from
a file has line feeds only.

* `not_mem_unifyBreaks`: no carriage return is left.
-/

namespace RemoteNodes.Text

/-- Every carriage return becomes a line feed, together with a line feed that follows it. -/
def unifyBreaks : List Char → List Char
  | [] => []
  | '\r' :: '\n' :: cs => '\n' :: unifyBreaks cs
  | '\r' :: cs => '\n' :: unifyBreaks cs
  | c :: cs => c :: unifyBreaks cs

theorem not_mem_unifyBreaks (cs : List Char) : '\r' ∉ unifyBreaks cs := by
  fun_induction unifyBreaks cs with
  | case1 => simp
  | case2 cs ih => simp [ih]
  | case3 cs _ ih => simp [ih]
  | case4 c cs _ hc ih => simpa [ih] using fun h => hc h.symm

/-- The text of a file, its lines ended by line feeds. -/
def unifyLines (s : String) : String :=
  if s.contains '\r' then String.ofList (unifyBreaks s.toList) else s

/-- The lines of a text whose lines are ended by line feeds; there is always at least one. -/
def lines : List Char → List (List Char)
  | [] => [[]]
  | '\n' :: cs => [] :: lines cs
  | c :: cs =>
    match lines cs with
    | [] => [[c]]
    | l :: ls => (c :: l) :: ls

end RemoteNodes.Text
