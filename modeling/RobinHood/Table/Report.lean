import RobinHood.Decimal.Fixed
import RobinHood.Table.Statistics

/-! Reports for people: the statistics of a table, a histogram of displacements with bars, and an
outline of the slots. -/

namespace RobinHood

def unlines (lines : List String) : String :=
  String.join (lines.map (· ++ "\n"))

def padLeft (char : Char) (width : Nat) (text : String) : String :=
  "".pushn char (width - text.length) ++ text

def Statistics.report (statistics : Statistics) : String :=
  let load := Decimal.fixed 2 (statistics.loadFactor * 100)
  let mean := Decimal.fixed 3 statistics.meanDisplacement
  let wasted := Decimal.fixed 2 (ratio statistics.wastedBytes statistics.totalBytes * 100)
  unlines
    [ "=== Hash Table Debug Statistics ==="
    , s!"Population: {statistics.population}/{statistics.slots} slots "
        ++ s!"({load}% load factor, grows at {statistics.trigger})"
    , s!"Displacement: max {statistics.maxDisplacement}, mean {mean}"
    , s!"Total Allocated: {statistics.totalBytes} bytes"
    , s!"Memory: {statistics.wastedBytes} bytes wasted ({wasted}%)" ]

namespace Table

variable {α : Type}

def eighthBlocks : List String :=
  ["", "▏", "▎", "▍", "▌", "▋", "▊", "▉"]

/-- Sixty cells for the greatest count, and a share of them, rounded up to eighths, for a lesser. -/
def bar (count greatest : Nat) : String :=
  let eighths := (count * 480 + greatest - 1) / greatest
  "".pushn '█' (eighths / 8) ++ eighthBlocks.getD (eighths % 8) ""

def histogramReport (table : Table α) : String :=
  let histogram := table.histogram
  let greatest := histogram.foldl max 0
  if greatest = 0 then unlines ["displacement histogram: empty"]
  else
    unlines <|
      s!"displacement histogram ({table.population} values):" ::
        histogram.zipIdx.map fun (count, displacement) =>
          padLeft ' ' 3 (toString displacement) ++ s!" | {bar count greatest} ({count})"

/-- The displacement of the value in a slot, or dots. -/
def slotText (table : Table α) (index : Nat) : String :=
  match table.slot index with
  | none => ".."
  | some cell => padLeft '0' 2 (toString (table.displacement cell.hash index))

def rowText (table : Table α) (row : Nat) : String :=
  let inRow := (List.range 16).map (16 * row + ·)
  ", ".intercalate ((inRow.filter (· < table.slotCount)).map table.slotText)

def outline (table : Table α) : Outline :=
  if table.slotCount = 0 then
    .record "HashTable"
      [ ("slots", .quoted "unallocated")
      , ("populated", .number table.population)
      , ("capacity", .number table.trigger) ]
  else
    let rows := (List.range ((table.slotCount + 15) / 16)).map table.rowText
    .record "HashTable"
      [ ("displacements", .sequence (rows.map .quoted))
      , ("populated", .number table.population)
      , ("capacity", .number table.trigger)
      , ("index_shift", .number table.shift) ]

end Table

end RobinHood
