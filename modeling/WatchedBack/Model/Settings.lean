import WatchedBack.Model.Api
import WatchedBack.Model.Query

/-! The settings of all data types in `statAggregator.cpp`: what a pass reads, and where it is
kept. -/

namespace WatchedBack

/-- `aggreg_data`: the settings read last, what the texts were made of when the data type was first
seen, and when its jobs are due. -/
structure AggregEntry where
  data : AggregData
  texts : TableTexts
  next : Schedule

/-- `tables` and `thread_freq`. -/
structure AggregSettings where
  tables : String → Option AggregEntry
  threadFreq : ℕ

/-- What a pass meets: the tables behind `c$data_configs`, whether its query is carried out, the id
name and the columns that the queries for a data type give, and the clock. -/
structure Reading (col : Collation) where
  config : List AggregateConfig
  keyed : config.Pairwise fun a b => col.same a.name b.name = false
  ressources : List RessourceRow
  ok : Bool
  schema : String → String × Option (List String)
  fp : ℚ

/-- The rows of the query. -/
def Reading.rows {col : Collation} (r : Reading col) : List DataConfig :=
  if r.ok then dataConfigs col r.config r.ressources else []

namespace AggregSettings

def init : AggregSettings := ⟨fun _ => none, 3600⟩

/-- One row of the query. -/
def readRow (schema : String → String × Option (List String)) (a : AggregSettings)
    (row : DataConfig) : AggregSettings :=
  match a.tables row.dataType with
  | some e =>
      { a with tables := Function.update a.tables row.dataType (some { e with data := row.data }) }
  | none =>
      let texts : TableTexts :=
        { tbl := row.dataType
          idName := (schema row.dataType).1
          columns := (schema row.dataType).2
          cfg := row.data }
      { tables := Function.update a.tables row.dataType (some ⟨row.data, texts, ⟨0, 0, 0⟩⟩)
        threadFreq := if row.data.delayAm < a.threadFreq then row.data.delayAm else a.threadFreq }

variable {col : Collation}

def reload (a : AggregSettings) (r : Reading col) : AggregSettings :=
  r.rows.foldl (readRow r.schema) a

/-- The jobs that are due get their next times. -/
def reschedule (a : AggregSettings) (fp : ℚ) : AggregSettings :=
  { a with
    tables := fun tbl => (a.tables tbl).map fun e =>
      { e with next := AggregState.reschedule e.data fp e.next } }

def pass (a : AggregSettings) (r : Reading col) : AggregSettings := (a.reload r).reschedule r.fp

end AggregSettings

end WatchedBack
