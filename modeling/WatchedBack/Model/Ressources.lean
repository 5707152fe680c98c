import WatchedBack.Library.UniqueIndex
import WatchedBack.Model.Api

/-! `agentClient::createRessources` of any number of agents and backends, cut at the statements on
`c$ressources`. -/

namespace WatchedBack

open UniqueIndex

/-- What `ressources_u` tells apart. -/
structure RessourceKey where
  dataType : String
  name : String
  origin : String
  deriving DecidableEq, Repr

/-- The unique index `ressources_u`. -/
def ressourceIndex (col : Collation) : Index RessourceRow RessourceKey where
  idOf := RessourceRow.id
  keyOf row := ⟨row.dataType, row.name, row.origin⟩
  row id k := ⟨id, k.name, k.origin, k.dataType⟩
  same k l := col.same k.dataType l.dataType ∧ col.same k.name l.name ∧ col.same k.origin l.origin
  refl k := by simp [col.refl]
  symm h := by
    simp only [decide_eq_true_eq] at h ⊢
    exact ⟨col.symm h.1, col.symm h.2.1, col.symm h.2.2⟩
  trans h h' := by
    simp only [decide_eq_true_eq] at h h' ⊢
    exact ⟨col.trans h.1 h'.1, col.trans h.2.1 h'.2.1, col.trans h.2.2 h'.2.2⟩
  idOf_row _ _ := rfl
  keyOf_row _ _ := rfl

/-! ### The loop over the paths -/

/-- What is read of a path before `haveRessource`; none for a path that is no history, or has no
getter. -/
def historyPath (path : String × Json) : Except Fault (Option RessourceKey) := do
  let (origin, name) ← ressourceName (← pathRes (Utf8.bytes path.1))
  if afterLast path.1.toList ≠ "history".toList then
    return none
  else if ← path.2.isMember "get" then
    let ref ← (← path.2.path ["get", "responses", "200", "schema", "items", "$ref"]).asString
    return some ⟨String.ofList (afterLast ref.toList), name, origin⟩
  else
    return none

/-- What is read of a path after `getRessourceId`. -/
def readOwner (api : Json) (path : String × Json) (key : RessourceKey) (resId : ℕ) :
    Except Fault Unit := do
  let _ ← (← path.2.member "x-host").asString
  if resId = 0 then
    return ()
  else
    let _ ← readService path.2
    let _ ← api.path ["definitions", key.dataType, "properties"]
    return ()

/-- Where a run of the loop stands: its path with the next statement, and the paths after it. -/
structure Creation where
  api : Json
  current : Option ((String × Json) × RessourceKey × Point)
  rest : List (String × Json)

def Creation.idle : Creation := ⟨.null, none, []⟩

/-- Goes on to the next path with statements. An exception ends the run. -/
def Creation.next (api : Json) : List (String × Json) → Creation
  | [] => .idle
  | path :: paths =>
      match historyPath path with
      | .error _ => .idle
      | .ok none => next api paths
      | .ok (some key) => ⟨api, some (path, key, .count), paths⟩

/-! ### Agents -/

/-- `answers` holds what `getRessourceId` has returned to any of the agents. -/
structure Creations (col : Collation) where
  ressources : Table (ressourceIndex col)
  agents : ℕ → Creation
  answers : List (RessourceKey × ℕ)

/-- An agent begins a run on a document, or sends its next statement; `gap` counts the numbers
that were lost before its insert. -/
inductive CreationMove
  | createRessources (agent : ℕ) (doc : ApiDocument)
  | step (agent gap : ℕ)

namespace Creations

variable {col : Collation}

def start (t : Table (ressourceIndex col)) : Creations col := ⟨t, fun _ => .idle, []⟩

def move (s : Creations col) : CreationMove → Creations col
  | .createRessources agent doc =>
      match (s.agents agent).current with
      | none =>
          let api := doc.value
          { s with agents := Function.update s.agents agent (.next api (api.entriesAt "paths")) }
      | some _ => s
  | .step agent gap =>
      let run := s.agents agent
      match run.current with
      | none => s
      | some (path, key, p) =>
          let (ressources, p) := s.ressources.step
            (Catalog.isRessource col key.origin key.name) key gap p
          match p with
          | .returned id =>
              let run := match readOwner run.api path key id with
                | .ok _ => .next run.api run.rest
                | .error _ => .idle
              ⟨ressources, Function.update s.agents agent run, s.answers ++ [(key, id)]⟩
          | p =>
              { s with
                ressources := ressources
                agents := Function.update s.agents agent
                  { run with current := some (path, key, p) } }

end Creations

end WatchedBack
