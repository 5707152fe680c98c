import WatchedBack.Model.Aggregator

/-! The texts that a pass of `statAggregator.cpp` sends for a table: one `mysqlpp::Query` is
written to with `<<`, and keeps its text when a statement fails. -/

namespace WatchedBack

/-! ### Intended texts -/

/-- The aggregates of a column of `d$`, as `base_am` selects them. -/
def colmText (col : String) : String :=
  ", avg(" ++ col ++ ") as avg_" ++ col ++ ", min(" ++ col ++ ") as min_" ++ col ++ ", max(" ++ col ++
    ") as max_" ++ col ++ ", sum(" ++ col ++ ") as sum_" ++ col ++ ", count(" ++ col ++ ") as cnt_" ++
    col ++ " "

/-- The aggregates of a column, as `base_ah` and `base_ad` select them. -/
def colhText (col : String) : String :=
  ", sum(sum_" ++ col ++ ")/sum(cnt_" ++ col ++ ") as avg_" ++ col ++ ", min(min_" ++ col ++
    ") as min_" ++ col ++ ", max(max_" ++ col ++ ") as max_" ++ col ++ ", sum(sum_" ++ col ++
    ") as sum_" ++ col ++ ", sum(cnt_" ++ col ++ ") as cnt_" ++ col ++ " "

/-- An aggregating insert: into which table, from which one, which one the join `y` has its
resources from, and the milliseconds of a bucket and the seconds of the delay. -/
structure BaseText where
  target : String
  source : String
  others : String
  unit : ℕ
  seconds : ℕ
  delay : ℕ
  colText : String → String

/-- What follows the columns of a `base_am`, `base_ah` or `base_ad`. -/
def BaseText.fromText (b : BaseText) (tbl idName : String) : String :=
  let unit := toString b.unit
  "from " ++ b.source ++ tbl ++ " d, (select u." ++ idName ++
    ", u.res_id, max(u.timestamp) as timestamp from (select x." ++ idName ++
    ", x.res_id, max(x.timestamp) as timestamp from " ++ b.target ++ tbl ++ " x group by x." ++ idName ++
    ", x.res_id union all select z." ++ idName ++ ", z.res_id, 0.0000 as timestamp from " ++ b.others ++
    tbl ++ " z group by z." ++ idName ++ ", z.res_id) u group by u." ++ idName ++
    ", u.res_id) y where floor(d.timestamp/" ++ unit ++ ")<floor(UNIX_TIMESTAMP(now())/" ++
    toString b.seconds ++ ")-" ++ toString b.delay ++ " and floor(d.timestamp/" ++ unit ++ ")*" ++ unit ++
    ">y.timestamp and d." ++ idName ++ "=y." ++ idName ++ " and d.res_id=y.res_id group by d." ++
    idName ++ ",d.res_id, floor(d.timestamp/" ++ unit ++ ")*" ++ unit ++ ".0000"

/-- `base_am`, `base_ah` or `base_ad`. If the columns cannot be read, nothing follows the select of
the time. -/
def BaseText.text (b : BaseText) (tbl idName : String) (columns : Option (List String)) : String :=
  let unit := toString b.unit
  let rest := match columns with
    | none => ""
    | some columns => String.join (columns.map b.colText) ++ b.fromText tbl idName
  "insert into " ++ (b.target ++ tbl ++ " select d." ++ idName ++
    ", d.res_id, floor(d.timestamp/" ++ unit ++ ")*" ++ unit ++ ".0000 as timestamp " ++ rest)

/-- The entry of a table in `tables`: what its texts are made of. -/
structure TableTexts where
  tbl : String
  idName : String
  columns : Option (List String)
  cfg : AggregData

namespace TableTexts

variable (t : TableTexts)

def baseAm : String :=
  BaseText.text ⟨"am$", "d$", "d$", 60000, 60, t.cfg.delayAm, colmText⟩ t.tbl t.idName t.columns

def baseAh : String :=
  BaseText.text ⟨"ah$", "am$", "am$", 3600000, 3600, t.cfg.delayAh, colhText⟩ t.tbl t.idName t.columns

def baseAd : String :=
  BaseText.text ⟨"ad$", "ah$", "am$", 86400000, 3600, t.cfg.delayAd, colhText⟩ t.tbl t.idName t.columns

/-- `retention` is that of the configuration read last. -/
def purge (kind : String) (retention : ℕ) : String :=
  "delete from " ++ (kind ++ t.tbl ++ " where timestamp<(floor(UNIX_TIMESTAMP(now())/" ++
    toString sec2day ++ ")-" ++ toString retention ++ ")*" ++ toString (sec2day * 1000))

end TableTexts

/-! ### The query of a pass -/

/-- The accumulated text, and the texts that were sent, each with the statement that was appended
last. -/
structure Query where
  text : String
  sent : List (AggregStmt × String)

/-- `query << text` and `myqExec`: the text is cleared if the statement is carried out. -/
def Query.exec (done : AggregStmt → Bool) (q : Query) (stmt : AggregStmt × String) : Query :=
  let text := q.text ++ stmt.2
  ⟨if done stmt.1 then "" else text, q.sent ++ [(stmt.1, text)]⟩

section pass

variable (t : TableTexts) (cfg : AggregData) (fp : ℚ) (next : Schedule)

def lowTexts : List (AggregStmt × String) :=
  if next.nextLow < fp then
    (.baseAm, t.baseAm) ::
      if 0 < cfg.retentionD then [(.purgeD, t.purge "d$" cfg.retentionD)] else []
  else []

def medTexts : List (AggregStmt × String) :=
  if next.nextMed < fp then
    (.baseAh, t.baseAh) ::
      if 0 < cfg.retentionAm then [(.purgeAm, t.purge "am$" cfg.retentionAm)] else []
  else []

def highTexts : List (AggregStmt × String) :=
  if next.nextHigh < fp then
    (.baseAd, t.baseAd) ::
      ((if 0 < cfg.retentionAh then [(.purgeAh, t.purge "ah$" cfg.retentionAh)] else []) ++
        if 0 < cfg.retentionAd then [(.purgeAd, t.purge "ad$" cfg.retentionAd)] else [])
  else []

/-- The statements that are due in a pass over a table, with the texts that are meant. -/
def intendedTexts : List (AggregStmt × String) :=
  lowTexts t cfg fp next ++ medTexts t cfg fp next ++ highTexts t cfg fp next

/-- A pass over a table; `done` says which of its `exec()` succeed. -/
def passQuery (done : AggregStmt → Bool) : Query :=
  (intendedTexts t cfg fp next).foldl (Query.exec done) ⟨"", []⟩

end pass

end WatchedBack
