import BulkPack.Text.Width

/-!
# Tables

A table has a header and rows of cells, drawn with lines between them and round corners. A column
is as wide as its widest cell and a blank on either side; a row is as high as its highest cell.
-/

namespace BulkPack

/-- A table as its header and its rows, each with a cell for every column. -/
structure Table where
  header : List String
  rows : List (List String)

namespace Table

def cellLines (s : String) : List String :=
  s.splitOn "\n"

def cellWidth (s : String) : Nat :=
  ((cellLines s).map Text.columns).foldl max 0

def widths (t : Table) : List Nat :=
  t.rows.foldl (fun ws row => List.zipWith max ws (row.map cellWidth)) (t.header.map cellWidth)

/-- A line of a cell in its column, padded on both sides. -/
def padCell (width : Nat) (s : String) : String :=
  " " ++ s ++ String.ofList (List.replicate (width - Text.columns s) ' ') ++ " "

def rowLine (ws : List Nat) (cells : List (List String)) (i : Nat) : String :=
  "│" ++ "┆".intercalate (List.zipWith (fun w c => padCell w (c.getD i "")) ws cells) ++ "│"

def rowLines (ws : List Nat) (row : List String) : List String :=
  let cells := row.map cellLines
  (List.range ((cells.map List.length).foldl max 1)).map (rowLine ws cells)

/-- A line between rows: its ends, its crossings, and the character in between. -/
def rule (left cross right : String) (dash : Char) (ws : List Nat) : String :=
  left ++ cross.intercalate (ws.map fun w => String.ofList (List.replicate (w + 2) dash)) ++ right

def body (ws : List Nat) : List (List String) → List String
  | [] => []
  | [r] => rowLines ws r
  | r :: rs => rowLines ws r ++ rule "├" "┼" "┤" '╌' ws :: body ws rs

def lines (t : Table) : List String :=
  let ws := t.widths
  rule "╭" "┬" "╮" '─' ws :: rowLines ws t.header ++
    rule "╞" "╪" "╡" '═' ws :: body ws t.rows ++ [rule "╰" "┴" "╯" '─' ws]

def render (t : Table) : String :=
  "\n".intercalate t.lines

end Table

end BulkPack
