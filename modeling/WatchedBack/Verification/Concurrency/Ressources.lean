import WatchedBack.Library.Runs
import WatchedBack.Model.Ressources
import WatchedBack.Verification.Api.Catalog

/-! # One resource for a name and an origin

The unique index has the data type as well, so it does not stop an insert of a name and an origin
that another agent has inserted under another type since the count. -/

namespace WatchedBack

open UniqueIndex Runs

namespace Creations

variable {col : Collation} {s : Creations col} {agent gap : ℕ} {move : CreationMove}

/-- No two rows have one name and one origin. -/
def OneRow (s : Creations col) : Prop :=
  ∀ origin name, s.ressources.rows.countP (Catalog.isRessource col origin name) ≤ 1

/-- At an insert, no row of its name and origin has another data type. -/
def Undisputed (s : Creations col) : CreationMove → Prop
  | .createRessources _ _ => True
  | .step agent _ => ∀ path key, (s.agents agent).current = some (path, key, .insert) →
      ∀ row ∈ s.ressources.rows, Catalog.isRessource col key.origin key.name row = true →
        col.same row.dataType key.dataType = true

/-! ### Rows of one name and origin -/

section rows

variable {rows : List RessourceRow} {a b : RessourceRow} {origin name : String}

theorem isRessource_iff : Catalog.isRessource col origin name a = true ↔
    col.same a.name name = true ∧ col.same a.origin origin = true := by
  simp [Catalog.isRessource]

/-- Two rows that are found alike have one name and one origin. -/
theorem isRessource_of_isRessource (ha : Catalog.isRessource col origin name a = true)
    (hb : Catalog.isRessource col origin name b = true) :
    Catalog.isRessource col b.origin b.name a = true := by
  rw [isRessource_iff] at ha hb ⊢
  exact ⟨col.trans ha.1 (col.symm hb.1), col.trans ha.2 (col.symm hb.2)⟩

theorem isRessource_self (a : RessourceRow) : Catalog.isRessource col a.origin a.name a = true :=
  isRessource_iff.mpr ⟨col.refl _, col.refl _⟩

/-- A row more leaves one row for each name and origin exactly if its own are new. -/
theorem countP_concat_le_one_iff
    (h : ∀ origin name, rows.countP (Catalog.isRessource col origin name) ≤ 1) :
    (∀ origin name, (rows ++ [a]).countP (Catalog.isRessource col origin name) ≤ 1) ↔
      ∀ b ∈ rows, Catalog.isRessource col a.origin a.name b = false := by
  constructor
  · intro hone b hb
    have hcount := hone a.origin a.name
    rw [List.countP_append, List.countP_singleton, if_pos (isRessource_self a)] at hcount
    have hzero : rows.countP (Catalog.isRessource col a.origin a.name) = 0 := by
      omega
    rw [← Bool.not_eq_true]
    exact List.countP_eq_zero.mp hzero b hb
  · intro hnew origin name
    rw [List.countP_append, List.countP_singleton]
    split
    · next ha =>
      have hzero : rows.countP (Catalog.isRessource col origin name) = 0 := by
        rw [List.countP_eq_zero]
        intro b hb hfound
        have hsame := isRessource_of_isRessource hfound ha
        rw [hnew b hb] at hsame
        cases hsame
      omega
    · exact h origin name

theorem eq_of_countP_le_one {p : RessourceRow → Bool} (h : rows.countP p ≤ 1) (ha : a ∈ rows)
    (hb : b ∈ rows) (hpa : p a = true) (hpb : p b = true) : a = b := by
  have hlength : (rows.filter p).length ≤ 1 := by
    rwa [← List.countP_eq_length_filter]
  have hma : a ∈ rows.filter p := List.mem_filter.mpr ⟨ha, hpa⟩
  have hmb : b ∈ rows.filter p := List.mem_filter.mpr ⟨hb, hpb⟩
  obtain ⟨x, hx⟩ := List.length_eq_one_iff.mp
    (le_antisymm hlength (List.length_pos_of_mem hma))
  rw [hx, List.mem_singleton] at hma hmb
  rw [hma, hmb]

end rows

/-! ### One move -/

section moves

variable {path : String × Json} {key : RessourceKey} {p : Point}

/-- What the queries for a key find. -/
def isKey (col : Collation) (key : RessourceKey) : RessourceRow → Bool :=
  Catalog.isRessource col key.origin key.name

theorem isKey_of_found (a : RessourceRow) (h : (ressourceIndex col).found key a = true) :
    isKey col key a = true := by
  simp only [Index.found, ressourceIndex, decide_eq_true_eq] at h
  exact isRessource_iff.mpr h.2

/-- A path begins with its count. -/
theorem next_current {api : Json} {paths : List (String × Json)}
    (h : (Creation.next api paths).current = some (path, key, p)) : p = .count := by
  induction paths with
  | nil => cases h
  | cons first paths ih =>
      rw [Creation.next] at h
      split at h
      · cases h
      · exact ih h
      · cases h
        rfl

/-- What a statement does: the table takes its step, the other agents are as before, and the
agent has the statement behind it, or has got its answer and goes on. -/
structure Steps (s : Creations col) (agent gap : ℕ) (key : RessourceKey) (p : Point)
    (s' : Creations col) : Prop where
  ressources : s'.ressources = (s.ressources.step (isKey col key) key gap p).1
  other : ∀ m, m ≠ agent → s'.agents m = s.agents m
  own : ∀ path' key' p', (s'.agents agent).current = some (path', key', p') →
    p' = .count ∨ key' = key ∧ p' = (s.ressources.step (isKey col key) key gap p).2
  answers : ∀ key' id, (key', id) ∈ s'.answers → (key', id) ∈ s.answers ∨
    key' = key ∧ .returned id = (s.ressources.step (isKey col key) key gap p).2

theorem move_steps (h : (s.agents agent).current = some (path, key, p)) :
    Steps s agent gap key p (s.move (.step agent gap)) := by
  have hstep : s.ressources.step (Catalog.isRessource col key.origin key.name) key gap p =
      s.ressources.step (isKey col key) key gap p := rfl
  simp only [Creations.move, h, hstep]
  cases hp : (s.ressources.step (isKey col key) key gap p).2 with
  | returned id =>
      refine ⟨rfl, fun m hm => Function.update_of_ne hm _ _, ?_, ?_⟩
      · intro path' key' p' hcurrent
        simp only [Function.update_self] at hcurrent
        split at hcurrent
        · exact Or.inl (next_current hcurrent)
        · cases hcurrent
      · intro key' id' hmem
        rcases List.mem_append.mp hmem with hold | hnew
        · exact Or.inl hold
        · cases List.mem_singleton.mp hnew
          exact Or.inr ⟨rfl, hp.symm⟩
  | _ =>
      refine ⟨rfl, fun m hm => Function.update_of_ne hm _ _, ?_, fun _ _ => Or.inl⟩
      intro path' key' p' hcurrent
      simp only [Function.update_self, Option.some.injEq, Prod.mk.injEq] at hcurrent
      obtain ⟨-, rfl, rfl⟩ := hcurrent
      exact Or.inr ⟨rfl, hp.symm⟩

/-- A move that is no statement. -/
theorem move_idle (h : (s.agents agent).current = none) : s.move (.step agent gap) = s := by
  simp only [Creations.move, h]

theorem createRessources_ressources (s : Creations col) (agent : ℕ) (doc : ApiDocument) :
    (s.move (.createRessources agent doc)).ressources = s.ressources := by
  simp only [Creations.move]
  split <;> rfl

end moves

/-! ### What the agents rely on -/

/-- Every statement has what the one before it has left, and every answer is the number of a row. -/
structure Served (s : Creations col) : Prop where
  calls : ∀ agent path key p, (s.agents agent).current = some (path, key, p) →
    s.ressources.Serves (isKey col key) p
  answers : ∀ key id, (key, id) ∈ s.answers → s.ressources.Serves (isKey col key) (.returned id)

theorem served_start (t : Table (ressourceIndex col)) : (start t).Served := by
  constructor
  · intro agent path key p h
    cases h
  · intro key id h
    cases h

theorem Served.begin (h : s.Served) (doc : ApiDocument) :
    (s.move (.createRessources agent doc)).Served := by
  simp only [Creations.move]
  split
  · refine ⟨fun m path key p hcurrent => ?_, h.answers⟩
    dsimp only at hcurrent
    by_cases hm : m = agent
    · rw [hm, Function.update_self] at hcurrent
      rw [next_current hcurrent]
      trivial
    · rw [Function.update_of_ne hm] at hcurrent
      exact h.calls m path key p hcurrent
  · exact h

theorem Served.step (h : s.Served) : (s.move (.step agent gap)).Served := by
  cases hcurrent : (s.agents agent).current with
  | none => rwa [move_idle hcurrent]
  | some current =>
      obtain ⟨path, key, p⟩ := current
      have hsteps : Steps s agent gap key p (s.move (.step agent gap)) := move_steps hcurrent
      have hown := Table.Serves.step gap isKey_of_found (h.calls agent path key p hcurrent)
      have hsub := s.ressources.rows_subset_step (isKey col key) key gap p
      rw [← hsteps.ressources] at hown hsub
      constructor
      · intro m path' key' p' hm
        by_cases hmn : m = agent
        · rw [hmn] at hm
          rcases hsteps.own path' key' p' hm with rfl | ⟨rfl, rfl⟩
          · trivial
          · exact hown
        · rw [hsteps.other m hmn] at hm
          exact (h.calls m path' key' p' hm).mono hsub
      · intro key' id hmem
        rcases hsteps.answers key' id hmem with hold | ⟨rfl, hid⟩
        · exact (h.answers key' id hold).mono hsub
        · rw [← hid] at hown
          exact hown

theorem Served.run (h : s.Served) (moves : List CreationMove) :
    (moves.foldl Creations.move s).Served := by
  apply foldl_invariant _ h
  intro s move _ hs
  cases move with
  | createRessources agent doc => exact hs.begin doc
  | step agent gap => exact hs.step

/-- Where a name and an origin have one row, the answers agree. -/
theorem OneRow.answers_eq {key key' : RessourceKey} {id id' : ℕ} (hone : s.OneRow) (h : s.Served)
    (hid : (key, id) ∈ s.answers) (hid' : (key', id') ∈ s.answers)
    (hname : col.same key.name key'.name = true) (horigin : col.same key.origin key'.origin = true) :
    id = id' := by
  obtain ⟨row, hrow, hfound, rfl⟩ := h.answers key id hid
  obtain ⟨row', hrow', hfound', rfl⟩ := h.answers key' id' hid'
  have hsame : isKey col key' row = true := by
    have hrow := isRessource_iff.mp hfound
    exact isRessource_iff.mpr ⟨col.trans hrow.1 hname, col.trans hrow.2 horigin⟩
  rw [eq_of_countP_le_one (hone key'.origin key'.name) hrow hrow' hsame hfound']

/-! ### When a move leaves one row -/

/-- An insert leaves one row for its name and origin exactly if no row of them is of another type. -/
theorem oneRow_insert_iff (key : RessourceKey) (gap : ℕ) (hone : s.OneRow) :
    (∀ origin name, (s.ressources.insert key gap).rows.countP (Catalog.isRessource col origin name) ≤ 1) ↔
      ∀ row ∈ s.ressources.rows, isKey col key row = true →
        col.same row.dataType key.dataType = true := by
  rw [Table.rows_insert]
  split
  · next hany =>
    refine iff_of_true hone fun row hrow hfound => ?_
    obtain ⟨taken, htaken, hkey⟩ := List.any_eq_true.mp hany
    rw [eq_of_countP_le_one (hone key.origin key.name) hrow htaken hfound (isKey_of_found taken hkey)]
    simp only [Index.found, ressourceIndex, decide_eq_true_eq] at hkey
    exact hkey.1
  · next hnone =>
    rw [countP_concat_le_one_iff hone]
    constructor
    · intro hnew row hrow hfound
      have hfree : isKey col key row = false := hnew row hrow
      rw [hfound] at hfree
      cases hfree
    · intro htype row hrow
      rw [← Bool.not_eq_true]
      intro hfound
      apply hnone
      have hnamed := isRessource_iff.mp hfound
      exact List.any_eq_true.mpr ⟨row, hrow, decide_eq_true
        ⟨htype row hrow hfound, hnamed.1, hnamed.2⟩⟩

theorem OneRow.move_iff (hone : s.OneRow) (move : CreationMove) :
    (s.move move).OneRow ↔ s.Undisputed move := by
  cases move with
  | createRessources agent doc =>
      refine iff_of_true ?_ trivial
      rwa [OneRow, createRessources_ressources]
  | step agent gap =>
      cases hcurrent : (s.agents agent).current with
      | none =>
          rw [move_idle hcurrent]
          refine iff_of_true hone fun path key h => ?_
          cases hcurrent.symm.trans h
      | some current =>
          obtain ⟨path, key, p⟩ := current
          rw [OneRow, (move_steps hcurrent).ressources]
          cases p with
          | insert =>
              have hiff := oneRow_insert_iff key gap hone
              constructor
              · intro h path' key' hinsert
                cases hcurrent.symm.trans hinsert
                exact hiff.mp h
              · intro h
                exact hiff.mpr (h path key hcurrent)
          | _ =>
              refine iff_of_true hone fun path key h => ?_
              cases hcurrent.symm.trans h

end Creations

/-! ### Without interruption -/

section uninterrupted

variable {path : String × Json} {item : PathItem}

theorem historyPath_of_readPath (h : readPath path = .ok (some item)) :
    historyPath path = .ok (some ⟨item.table, item.name, item.origin⟩) := by
  simp only [readPath, Fallible.bind_eq_ok] at h
  obtain ⟨res, hres, ⟨origin, name⟩, hname, h⟩ := h
  simp only [historyPath, hres, hname, Fallible.ok_bind]
  split at h
  · cases h
  · next hhistory =>
    obtain ⟨get, hget, h⟩ := Fallible.bind_eq_ok.mp h
    rw [if_neg hhistory, hget, Fallible.ok_bind]
    split at h
    · next htrue =>
      obtain ⟨refJson, hrefJson, h⟩ := Fallible.bind_eq_ok.mp h
      obtain ⟨ref, href, h⟩ := Fallible.bind_eq_ok.mp h
      obtain ⟨hostJson, -, h⟩ := Fallible.bind_eq_ok.mp h
      obtain ⟨host, -, h⟩ := Fallible.bind_eq_ok.mp h
      cases h
      rw [if_pos htrue, hrefJson, Fallible.ok_bind, href]
      rfl
    · cases h

/-- Uninterrupted, the statements of a path are `lookupRessource`. -/
theorem lookupRessource_uninterrupted {col : Collation} (t : Table (ressourceIndex col))
    (c : Catalog) (hrows : c.ressources = t.rows) (item : PathItem) (gap₁ gap₃ : ℕ) :
    let key : RessourceKey := ⟨item.table, item.name, item.origin⟩
    let found := Catalog.isRessource col item.origin item.name
    let r₁ := t.step found key gap₁ .count
    let r₂ := r₁.1.step found key 0 r₁.2
    let r₃ := r₂.1.step found key gap₃ r₂.2
    let looked := lookupRessource (Catalog.store col) item c
    r₃.1.rows = looked.2.ressources ∧ r₃.2 = .returned looked.1 := by
  have hid : t.autoIncrement 0 = nextId (c.ressources.map RessourceRow.id) := by
    rw [Table.autoIncrement, nextId, hrows, List.foldl_eq_foldr]
    rfl
  have h := t.uninterrupted ⟨item.table, item.name, item.origin⟩ Creations.isKey_of_found gap₁ 0 gap₃
  have hlooked : (lookupRessource (Catalog.store col) item c).2.ressources =
      if t.rows.any (Catalog.isRessource col item.origin item.name) then t.rows
      else t.rows ++ [⟨t.autoIncrement 0, item.name, item.origin, item.table⟩] := by
    rw [Catalog.lookupRessource_store, hid, ← hrows]
    split <;> rfl
  have hanswer : (lookupRessource (Catalog.store col) item c).1 =
      (((lookupRessource (Catalog.store col) item c).2.ressources.find?
        (Catalog.isRessource col item.origin item.name)).map RessourceRow.id).getD 0 := rfl
  rw [hlooked] at hanswer
  constructor
  · exact h.1.trans hlooked.symm
  · exact h.2.trans (congrArg Point.returned hanswer.symm)

end uninterrupted

/-- In any interleaving of runs of `createRessources`, no name and origin ever have two rows if
and only if at each insert no row of its name and origin is of another data type; and then
`getRessourceId` answers every caller alike. -/
theorem one_ressource_iff {col : Collation} {t : Table (ressourceIndex col)}
    (ht : (Creations.start t).OneRow) (moves : List CreationMove) :
    (Always Creations.move Creations.OneRow (Creations.start t) moves ↔
      EachStep Creations.move Creations.Undisputed (Creations.start t) moves) ∧
    (EachStep Creations.move Creations.Undisputed (Creations.start t) moves →
      ∀ key id key' id', (key, id) ∈ (moves.foldl Creations.move (Creations.start t)).answers →
        (key', id') ∈ (moves.foldl Creations.move (Creations.start t)).answers →
          col.same key.name key'.name = true → col.same key.origin key'.origin = true →
            id = id') := by
  have hiff : Always Creations.move Creations.OneRow (Creations.start t) moves ↔
      EachStep Creations.move Creations.Undisputed (Creations.start t) moves :=
    always_iff_eachStep (fun s move hs => hs.move_iff move) ht
  refine ⟨hiff, fun h key id key' id' hid hid' hname horigin => ?_⟩
  have hone : (moves.foldl Creations.move (Creations.start t)).OneRow :=
    hiff.mpr h moves [] (by simp)
  exact hone.answers_eq ((Creations.served_start t).run moves) hid hid' hname horigin

/-! ### Two agents with a disk -/

theorem oneRow_empty (col : Collation) : (Creations.start (.empty (ressourceIndex col))).OneRow := by
  intro origin name
  exact Nat.zero_le 1

/-- The second agent counts after the insert of the first. -/
def disksInTurn : List CreationMove :=
  [.createRessources 0 (diskDoc "disk"), .step 0 0, .step 0 0, .step 0 0,
    .createRessources 1 (diskDoc "storage"), .step 1 0, .step 1 0]

/-- Both agents count before either inserts. -/
def disksAtOnce : List CreationMove :=
  [.createRessources 0 (diskDoc "disk"), .createRessources 1 (diskDoc "storage"), .step 0 0, .step 1 0,
    .step 0 0, .step 1 0]

/-- There is no row yet, or the next statement is no insert. -/
def Creations.noDispute {col : Collation} (s : Creations col) : CreationMove → Bool
  | .createRessources _ _ => true
  | .step agent _ => s.ressources.rows.isEmpty ||
      decide (((s.agents agent).current.map fun c => c.2.2) ≠ some .insert)

theorem Creations.undisputed_of_noDispute {col : Collation} {s : Creations col} {move : CreationMove}
    (h : s.noDispute move = true) : s.Undisputed move := by
  cases move with
  | createRessources agent doc => trivial
  | step agent gap =>
      intro path key hcurrent row hrow
      rcases Bool.or_eq_true_iff.mp h with hempty | hpoint
      · rw [List.isEmpty_iff.mp hempty] at hrow
        cases hrow
      · have hinsert := of_decide_eq_true hpoint
        rw [hcurrent] at hinsert
        exact absurd rfl hinsert

theorem one_ressource_in_turn :
    Always Creations.move Creations.OneRow
      (Creations.start (.empty (ressourceIndex .binary))) disksInTurn := by
  apply (one_ressource_iff (oneRow_empty .binary) disksInTurn).1.mpr
  exact eachStep_of_testSteps (fun _ _ => Creations.undisputed_of_noDispute) (by decide +kernel)

theorem disk_has_two_rows :
    ¬ Always Creations.move Creations.OneRow
      (Creations.start (.empty (ressourceIndex .binary))) disksAtOnce := by
  intro h
  have hone := h disksAtOnce [] (by simp) "host" "disk"
  have htwo : (disksAtOnce.foldl Creations.move (Creations.start (.empty (ressourceIndex .binary)))
      ).ressources.rows.countP (Catalog.isRessource .binary "host" "disk") = 2 := by
    decide +kernel
  omega

end WatchedBack
