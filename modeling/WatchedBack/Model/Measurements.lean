import WatchedBack.Model.Setup

/-! The rows of a `d$` table as the inserts of `parse` leave them. Every insert is carried out. -/

namespace WatchedBack

/-- What a column keeps of a number. An integer is the nearest one, away from zero when halfway. -/
def PropertyType.stored (type : PropertyType) (x : ℚ) : ℚ :=
  match type with
  | .number => (Column.ofRat x).toRat
  | .integer => if 0 ≤ x then ⌊x + 1 / 2⌋ else ⌈x - 1 / 2⌉

section store

variable (types : String → PropertyType)

/-- The row of an insert. A time that is not listed is the default of its column. -/
def SampleInsert.row (i : SampleInsert) : Sample String where
  ownerId := i.ownerId
  resId := i.resId
  timestamp := (Column.ofRat ((i.values.lookup "timestamp").join.getD 0)).toRat
  columns := fun col => (i.values.lookup col).join.map (types col).stored

/-- `ON DUPLICATE KEY UPDATE` -/
def SampleInsert.updateRow (i : SampleInsert) (r : Sample String) : Sample String :=
  { r with
    columns := fun col =>
      match i.update.lookup col with
      | some v => v.map (types col).stored
      | none => r.columns col }

def storeInsert (d : List (Sample String)) (i : SampleInsert) : List (Sample String) :=
  if ∃ r ∈ d, r.key = (i.row types).key then
    d.map fun r => if r.key = (i.row types).key then i.updateRow types r else r
  else d ++ [i.row types]

/-- The table after the inserts of a run. -/
def ParseState.rows (s : ParseState) : List (Sample String) :=
  s.inserts.foldl (storeInsert types) []

end store

end WatchedBack
