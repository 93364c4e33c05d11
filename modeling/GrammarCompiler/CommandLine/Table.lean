import GrammarCompiler.Text.Join
import GrammarCompiler.Text.Search
import GrammarCompiler.Text.Width

/-!
# Tables drawn with box characters

A table has a header and rows of cells.  A column is as wide as its widest
cell; cells are padded by one space and aligned to the left.
-/

namespace GrammarCompiler
namespace Table

/-- The characters of a horizontal line of a table. -/
structure Rule where
  left : String
  fill : Char
  crossing : String
  right : String

/-- The line above the header. -/
def topRule : Rule := { left := "┌", fill := '─', crossing := "┬", right := "┐" }

/-- The line below the header. -/
def headerRule : Rule := { left := "╞", fill := '═', crossing := "╪", right := "╡" }

/-- The line between two rows. -/
def rowRule : Rule := { left := "├", fill := '╌', crossing := "┼", right := "┤" }

/-- The line below the last row. -/
def bottomRule : Rule := { left := "└", fill := '─', crossing := "┴", right := "┘" }

/-- A horizontal line over columns of given widths. -/
def Rule.text (rule : Rule) (widths : List Nat) : String :=
  rule.left ++
    Text.joinWith rule.crossing
      (widths.map fun width => String.ofList (List.replicate (width + 2) rule.fill)) ++
    rule.right

/-- The lines of a cell. -/
def cellLines (cell : String) : List String :=
  Text.split '\n' cell

/-- The width of a cell. -/
def cellWidth (cell : String) : Nat :=
  (cellLines cell).foldl (fun width line => max width (Text.width line)) 0

/-- The widths of the columns of some rows. -/
def columnWidths : List (List String) → List Nat
  | [] => []
  | [row] => row.map cellWidth
  | row :: rows => (row.map cellWidth).zipWith max (columnWidths rows)

/-- A cell line, padded to the width of its column. -/
def padded (width : Nat) (line : String) : String :=
  " " ++ line ++ Text.spaces (width - Text.width line) ++ " "

/-- One line of a row. -/
def rowLine (widths : List Nat) (lines : List String) : String :=
  "│" ++ Text.joinWith "┆" (widths.zipWith padded lines) ++ "│"

/-- The lines of a row. -/
def rowLines (widths : List Nat) (row : List String) : List String :=
  let cells := row.map cellLines
  let height := cells.foldl (fun height lines => max height lines.length) 0
  (List.range height).map fun index =>
    rowLine widths (cells.map fun lines => lines.getD index "")

/-- The lines of the rows with lines between them. -/
def bodyLines (widths : List Nat) : List (List String) → List String
  | [] => []
  | [row] => rowLines widths row
  | row :: rows => rowLines widths row ++ rowRule.text widths :: bodyLines widths rows

/-- The lines of a table. -/
def lines (header : List String) (rows : List (List String)) : List String :=
  let widths := columnWidths (header :: rows)
  topRule.text widths :: (rowLines widths header ++
    headerRule.text widths :: (bodyLines widths rows ++ [bottomRule.text widths]))

end Table
end GrammarCompiler
