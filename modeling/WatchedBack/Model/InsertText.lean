import WatchedBack.Library.Templates
import WatchedBack.Model.Ressource

/-! The text that `updateDefs` writes into `baseInsert`, and the statement that `parse` makes of it.
The scanner that reads the template is a parameter. -/

namespace WatchedBack

open Templates

/-! ### The template -/

/-- The last loop of `updateDefs`: `first` until a column is written; the number counts on past
`timestamp`. -/
def updateText (keys : List String) : String :=
  (keys.zipIdx.foldl (fun (acc : Bool × String) p =>
    if p.1 = "timestamp" then acc
    else (false, acc.2 ++ (if acc.1 then "" else ", ") ++
      (p.1 ++ "=%" ++ toString p.2 ++ ":" ++ p.1))) (true, "")).2

/-- `baseInsert` after `updateDefs`. -/
def RessourceClient.baseInsertText (c : RessourceClient) (definition : Json) : String :=
  "insert into d$" ++ c.table ++ "(" ++ c.idName ++ ", res_id" ++
    String.join (definition.keys.map fun k => ", " ++ k) ++
    ") values (" ++ toString c.hostId ++ ", " ++ toString c.resId ++
    String.join (definition.keys.zipIdx.map fun p => ", %" ++ toString p.2 ++ ":" ++ p.1) ++
    ") ON DUPLICATE KEY UPDATE " ++ updateText definition.keys

/-- `insertQuery` of a line: the template is parsed, the values are set by name, and the statement
is sent. -/
def insertTokens (mysql : Scanner) (c : RessourceClient) (definition line : Json) :
    Except Fault (List (Token ℚ)) := do
  let pieces := mysql.scan (c.baseInsertText definition).toList
  let defaults ← definition.entries.mapM fun (k, _) => do
    return (k.toList, ← (← line.member k).asFloat)
  return render pieces (bindAll pieces defaults)

/-! ### The statement -/

def chars {ν : Type} (text : String) : List (Token ν) := text.toList.map .char

/-- The text of the statement, with its values. -/
def SampleInsert.tokens (stmt : SampleInsert) : List (Token ℚ) :=
  chars ("insert into " ++ stmt.table ++ "(" ++ stmt.idName ++ ", res_id") ++
    stmt.values.flatMap (fun p => chars (", " ++ p.1)) ++
    chars (") values (" ++ toString stmt.ownerId ++ ", " ++ toString stmt.resId) ++
    stmt.values.flatMap (fun p => chars ", " ++ [.value p.2]) ++
    chars ") ON DUPLICATE KEY UPDATE " ++
    (chars ", ").intercalate (stmt.update.map fun p => chars (p.1 ++ "=") ++ [.value p.2])

end WatchedBack
