import WatchedBack.Verification.Api.Paths
import WatchedBack.Verification.Events.Faults

/-! # Path tables of any form

`createRessources` cuts origin and name out of a path before it knows whether the path is one of a
history with a getter. The loop finishes exactly if the cut is within every path, and the members
that it reads can be read; it then passes over every path that is no history or has no getter. -/

namespace WatchedBack

open Fallible

/-! ### Entries -/

/-- The path is not empty, and what stands between its first byte and its last slash begins with
`system/` or has nine bytes. -/
def Cuttable (key : String) : Prop :=
  Utf8.bytes key ≠ [] ∧ (Utf8.bytes "system/" <+: beforeLast slash (Utf8.bytes key).tail ∨
    9 ≤ (beforeLast slash (Utf8.bytes key).tail).length)

instance (key : String) : Decidable (Cuttable key) := inferInstanceAs (Decidable (_ ∧ _))

/-- Five letters of two bytes each. -/
example : Cuttable "/ééééé/history" := by decide +kernel

/-- The last segment of the path is `history`. -/
def IsHistory (path : String × Json) : Prop := afterLast path.1.toList = "history".toList

/-- A history with a getter. -/
def IsGetter (path : String × Json) : Prop :=
  IsHistory path ∧ path.2.isMember "get" = .ok true

/-- A text can be read there. -/
def Json.HasText (v : Json) (keys : List String) : Prop :=
  Succeeds (do (← v.path keys).asString)

/-- What the loop needs of an entry: a path that can be cut, members that can be looked up, and
of a getter the texts that it reads. -/
structure Handleable {σ : Type} (store : Store σ) (acc : AgentApi × σ) (path : String × Json) :
    Prop where
  key : Cuttable path.1
  container : IsHistory path → path.2.IsContainer
  texts : IsGetter path →
    path.2.HasText ["get", "responses", "200", "schema", "items", "$ref"] ∧
      path.2.HasText ["x-host"]
  known : ∀ item, readPath path = .ok (some item) → (lookupRessource store item acc.2).1 ≠ 0 →
    Succeeds (readService path.2) ∧
      Succeeds (acc.1.api.path ["definitions", item.table, "properties"])

section loop

variable {σ : Type} {store : Store σ} {db : Database} {acc acc' : AgentApi × σ}
  {path : String × Json}

theorem ressourceName_succeeds_iff {res : List UInt8} :
    Succeeds (ressourceName res) ↔ Utf8.bytes "system/" <+: res ∨ 9 ≤ res.length := by
  unfold ressourceName
  split
  · next hsystem => exact iff_of_true ⟨_, rfl⟩ (Or.inl (List.isPrefixOf_iff_prefix.mp hsystem))
  · next hsystem =>
      rw [List.isPrefixOf_iff_prefix] at hsystem
      split
      · next hlength =>
          refine iff_of_false (not_succeeds_error _) ?_
          rintro (h | h)
          · exact hsystem h
          · omega
      · next hlength => exact iff_of_true ⟨_, rfl⟩ (Or.inr (not_lt.mp hlength))

theorem nameOf_succeeds_iff {key : String} : Succeeds (nameOf key) ↔ Cuttable key := by
  unfold nameOf Cuttable
  cases Utf8.bytes key with
  | nil => simp [pathRes]
  | cons c rest =>
      rw [pathRes, ok_bind, ressourceName_succeeds_iff, List.tail_cons]
      simp only [ne_eq, reduceCtorEq, not_false_eq_true, true_and]

theorem isMember_succeeds_iff {v : Json} {key : String} :
    Succeeds (v.isMember key) ↔ v.IsContainer := by
  cases v <;> simp [Json.isMember, Json.IsContainer]

/-- The reading of a path begins with the cut. -/
theorem readPath_eq (path : String × Json) : readPath path = (do
    let (origin, name) ← nameOf path.1
    if afterLast path.1.toList ≠ "history".toList then
      return none
    else if ← path.2.isMember "get" then
      let ref ← (← path.2.path ["get", "responses", "200", "schema", "items", "$ref"]).asString
      let host ← (← path.2.member "x-host").asString
      return some ⟨origin, name, String.ofList (afterLast ref.toList), host⟩
    else
      return none) := by
  rw [readPath, nameOf]
  cases pathRes (Utf8.bytes path.1) with
  | error e => rfl
  | ok res => rfl

/-- The texts of a getter. -/
theorem texts_succeeds_iff {v : Json} (origin name : String) :
    Succeeds (do
        let ref ← (← v.path ["get", "responses", "200", "schema", "items", "$ref"]).asString
        let host ← (← v.member "x-host").asString
        return some (PathItem.mk origin name (String.ofList (afterLast ref.toList)) host)) ↔
      v.HasText ["get", "responses", "200", "schema", "items", "$ref"] ∧ v.HasText ["x-host"] := by
  have hhost : v.HasText ["x-host"] ↔ Succeeds (v.member "x-host" >>= Json.asString) := by
    rw [Json.HasText, Json.path, List.foldlM_cons]
    cases v.member "x-host" with
    | error e => rfl
    | ok w => rfl
  rw [hhost, Json.HasText]
  simp only [succeeds_bind, pure_eq_ok, succeeds_ok, and_true]
  constructor
  · rintro ⟨v', hv', ref, href, w, hw, hhost⟩
    exact ⟨⟨v', hv', ref, href⟩, w, hw, hhost⟩
  · rintro ⟨⟨v', hv', ref, href⟩, w, hw, hhost⟩
    exact ⟨v', hv', ref, href, w, hw, hhost⟩

theorem readPath_succeeds_iff :
    Succeeds (readPath path) ↔ Cuttable path.1 ∧ (IsHistory path → path.2.IsContainer) ∧
      (IsGetter path → path.2.HasText ["get", "responses", "200", "schema", "items", "$ref"] ∧
        path.2.HasText ["x-host"]) := by
  rw [readPath_eq, ← nameOf_succeeds_iff]
  cases hname : nameOf path.1 with
  | error e => simp only [error_bind, not_succeeds_error, false_and]
  | ok names =>
      rw [ok_bind, and_iff_right (succeeds_ok names)]
      by_cases hhistory : IsHistory path
      · have hpass : ¬ afterLast path.1.toList ≠ "history".toList := not_not.mpr hhistory
        dsimp only
        rw [if_neg hpass, ← isMember_succeeds_iff]
        cases hget : path.2.isMember "get" with
        | error e => simp only [error_bind, not_succeeds_error, hhistory, forall_const, false_and]
        | ok isGet =>
            cases isGet with
            | false => simp [IsGetter, hget]
            | true =>
                have hgetter : IsGetter path := ⟨hhistory, hget⟩
                rw [ok_bind, if_pos rfl, texts_succeeds_iff]
                simp [hgetter]
      · have hskip : afterLast path.1.toList ≠ "history".toList := hhistory
        dsimp only
        rw [if_pos hskip]
        exact iff_of_true ⟨none, rfl⟩ ⟨fun h => absurd h hhistory, fun h => absurd h.1 hhistory⟩

/-- An entry that is passed over is cut all the same. -/
theorem readPath_of_not_getter (hgetter : ¬ IsGetter path) {item : Option PathItem}
    (h : readPath path = .ok item) : item = none := by
  rcases readPath_cases h with ⟨hnone, -⟩ | ⟨i, -, hlast, hget, -⟩
  · exact hnone
  · exact absurd ⟨hlast, hget⟩ hgetter

/-- An entry that is passed over changes nothing. -/
theorem createRessource_of_not_getter (hgetter : ¬ IsGetter path)
    (h : createRessource store db acc path = .ok acc') : acc' = acc := by
  obtain ⟨⟨new, s⟩, hdescribe, h⟩ := bind_eq_ok.mp h
  obtain ⟨item, hitem, hdescribe⟩ := bind_eq_ok.mp hdescribe
  cases readPath_of_not_getter hgetter hitem
  cases hdescribe
  cases h
  rfl

theorem createRessource_succeeds_iff :
    Succeeds (createRessource store db acc path) ↔ Handleable store acc path := by
  have hdescribe : Succeeds (createRessource store db acc path) ↔
      Succeeds (describe store acc.1.api path acc.2) := by
    rw [createRessource, succeeds_bind]
    constructor
    · rintro ⟨a, ha, -⟩
      exact ⟨a, ha⟩
    · rintro ⟨⟨new, s⟩, hnew⟩
      cases new with
      | none => exact ⟨_, hnew, _, rfl⟩
      | some new => exact ⟨_, hnew, _, rfl⟩
  have hknown : Succeeds (describe store acc.1.api path acc.2) ↔ Succeeds (readPath path) ∧
      ∀ item, readPath path = .ok (some item) → (lookupRessource store item acc.2).1 ≠ 0 →
        Succeeds (readService path.2) ∧
          Succeeds (acc.1.api.path ["definitions", item.table, "properties"]) := by
    rw [describe]
    cases hitem : readPath path with
    | error e => simp
    | ok item =>
        cases item with
        | none => simp
        | some item =>
            by_cases hid : (lookupRessource store item acc.2).1 = 0
            · simp [hid]
            · simp only [ok_bind, hid, if_false, succeeds_bind, pure_eq_ok, succeeds_ok, and_true]
              constructor
              · rintro ⟨service, hservice, definition, hdefinition⟩
                refine ⟨trivial, fun item' heq _ => ?_⟩
                cases heq
                exact ⟨⟨service, hservice⟩, definition, hdefinition⟩
              · rintro ⟨-, h⟩
                obtain ⟨⟨service, hservice⟩, definition, hdefinition⟩ := h item rfl hid
                exact ⟨service, hservice, definition, hdefinition⟩
  rw [hdescribe, hknown, readPath_succeeds_iff]
  constructor
  · rintro ⟨⟨hkey, hcontainer, htexts⟩, hknown⟩
    exact ⟨hkey, hcontainer, htexts, hknown⟩
  · rintro ⟨hkey, hcontainer, htexts, hknown⟩
    exact ⟨⟨hkey, hcontainer, htexts⟩, hknown⟩

/-- The loop over the paths finishes: every entry that is no history or has no getter leaves the
database and the clients as they are, and the entries after it are still handled. -/
def HandlesPaths (store : Store σ) (db : Database) (acc : AgentApi × σ)
    (paths : List (String × Json)) : Prop :=
  Succeeds (paths.foldlM (createRessource store db) acc) ∧
    EachStep (createRessource store db)
      (fun m path => ¬ IsGetter path → createRessource store db m path = .ok m) acc paths

end loop

/-- The loop handles a table of paths exactly if every entry that it comes to can be handled. -/
theorem paths_handled_iff {σ : Type} (store : Store σ) (db : Database) (acc : AgentApi × σ)
    (paths : List (String × Json)) :
    HandlesPaths store db acc paths ↔
      EachStep (createRessource store db) (Handleable store) acc paths := by
  have hreturns : Succeeds (paths.foldlM (createRessource store db) acc) ↔
      EachStep (createRessource store db) (Handleable store) acc paths := by
    rw [succeeds_foldlM_iff]
    exact eachStep_congr fun m path => createRessource_succeeds_iff
  rw [HandlesPaths, hreturns]
  constructor
  · intro h
    exact h.1
  · intro h
    refine ⟨h, fun before path after m heq hrun hgetter => ?_⟩
    obtain ⟨m', hm'⟩ := createRessource_succeeds_iff.mpr (h before path after m heq hrun)
    rw [hm', createRessource_of_not_getter hgetter hm']

/-- A path of one short segment, which is no history: the cut is out of its range. -/
theorem short_path_out_of_range :
    ([("/all", Json.null)].foldlM (createRessource (Catalog.store .binary) emptyDatabase)
        (AgentApi.new, emptyCatalog)).map (fun _ => ()) = .error .outOfBounds ∧
      ¬ HandlesPaths (Catalog.store .binary) emptyDatabase (AgentApi.new, emptyCatalog)
        [("/all", Json.null)] := by
  have hrun : ([("/all", Json.null)].foldlM (createRessource (Catalog.store .binary) emptyDatabase)
      (AgentApi.new, emptyCatalog)).map (fun _ => ()) = .error .outOfBounds := by
    decide +kernel
  refine ⟨hrun, ?_⟩
  rintro ⟨⟨acc, hacc⟩, -⟩
  rw [hacc] at hrun
  cases hrun

end WatchedBack
