import WatchedBack.Library.Fallible
import WatchedBack.Model.FailingLookups

/-! # Lookups whose statements fail

A lookup goes on to its select whatever its insert came to. It reads the first row of an empty
result exactly if the select is carried out on a table that has no row of the key: none was there,
and the insert was not carried out, or there is none to be sent. -/

namespace WatchedBack

open Fallible

section lookup

variable {α : Type} (answer : LookupAnswer) (found : α → Bool) (idOf : α → ℕ) (row : α)
  (rows : List α)

/-! ### The statements -/

/-- After the insert there is a row of the key, unless there was none and the insert failed. -/
theorem any_insertMissing (hrow : found row = true) :
    (answer.insertMissing found row rows).any found = true ↔
      rows.any found = true ∨ answer.insert = .done := by
  unfold LookupAnswer.insertMissing
  cases answer.count <;> cases answer.insert <;> by_cases hany : rows.any found = true <;>
    simp [haveRow, hany, hrow]

/-- The select returns an id of the key or 0, or there is no row to read. -/
theorem selectId_spec :
    (∃ id, answer.selectId found idOf rows = .ok id ∧
      (id = 0 ∨ ∃ r ∈ rows, found r = true ∧ idOf r = id)) ↔
    (answer.select = .done → rows.any found = true) := by
  unfold LookupAnswer.selectId
  cases hselect : answer.select with
  | failed => simp [selectFirst]
  | threw => simp [selectFirst]
  | done =>
      cases hfind : rows.find? found with
      | none =>
          have hnone : ¬ rows.any found = true := by
            rw [List.any_eq_true]
            rintro ⟨r, hr, hfound⟩
            exact List.find?_eq_none.mp hfind r hr hfound
          simp [selectFirst, hfind, hnone]
      | some r =>
          have hfound := List.find?_some hfind
          have hmem := List.mem_of_find?_eq_some hfind
          have hany : rows.any found = true := List.any_eq_true.mpr ⟨r, hmem, hfound⟩
          simp only [selectFirst, hfind, ok_bind, Option.getD_some, hany, forall_const, iff_true]
          exact ⟨idOf r, rfl, Or.inr ⟨r, hmem, hfound, rfl⟩⟩

/-- A lookup that inserts what is missing, and puts the rows back into their table. -/
theorem getOrCreate_spec (put : List α → LookupTables) (Names : LookupTables → ℕ → Prop)
    (hrow : found row = true)
    (hnames : ∀ rows id, Names (put rows) id ↔ ∃ r ∈ rows, found r = true ∧ idOf r = id) :
    (∃ t id, (do
        let (rows, id) ← answer.getOrCreate found idOf row rows
        return (put rows, id)) = .ok (t, id) ∧ (id = 0 ∨ Names t id)) ↔
    (answer.grabbed = true → answer.select = .done →
      (∃ id, Names (put rows) id) ∨ answer.insert = .done) := by
  have hknown : (∃ id, Names (put rows) id) ↔ rows.any found = true := by
    simp [hnames]
  rw [hknown]
  unfold LookupAnswer.getOrCreate
  cases answer.grabbed with
  | false => simp
  | true =>
      have hselect := selectId_spec answer found idOf (answer.insertMissing found row rows)
      rw [any_insertMissing answer found row rows hrow] at hselect
      simp only [if_true, forall_const]
      rw [← hselect]
      constructor
      · rintro ⟨t, id, hrun, hid⟩
        obtain ⟨⟨rows', id'⟩, hcreate, heq⟩ := bind_eq_ok.mp hrun
        obtain ⟨id'', hid'', heq'⟩ := bind_eq_ok.mp hcreate
        cases heq'
        cases heq
        exact ⟨id', hid'', hid.imp_right (hnames _ id').mp⟩
      · rintro ⟨id, hsel, hid⟩
        refine ⟨put (answer.insertMissing found row rows), id, ?_, hid.imp_right (hnames _ id).mpr⟩
        simp [hsel]

end lookup

/-! ### The six lookups -/

/-- The id is that of a row of the key. -/
def LookupCall.Names (col : Collation) (t : LookupTables) (id : ℕ) : LookupCall → Prop
  | .getHost name => ∃ row ∈ t.hosts, col.same row.name name = true ∧ row.id = id
  | .getService hostId name =>
      ∃ row ∈ t.services, (row.hostId = hostId ∧ col.same row.name name = true) ∧ row.id = id
  | .getServiceType name => ∃ row ∈ t.types, col.same row.name name = true ∧ row.id = id
  | .getEventType name => ∃ row ∈ t.eventTypes, isEventType col name row = true ∧ row.id = id
  | .getBackend me cfg => ∃ row ∈ t.backends,
      (col.same row.hostname me = true ∧ col.same row.filename cfg = true) ∧ row.id = id
  | .getRessourceId origin name =>
      ∃ row ∈ t.ressources, Catalog.isRessource col origin name row = true ∧ row.id = id

/-- The lookup inserts what is missing. -/
def LookupCall.Inserts : LookupCall → Prop
  | .getRessourceId _ _ => False
  | _ => True

/-- A lookup returns the id of a row of its key, or 0, exactly if its select is not carried out,
or there is a row of the key, or the lookup could insert one. -/
theorem lookup_survives_iff (col : Collation) (newId : ℕ) (answer : LookupAnswer)
    (t : LookupTables) (call : LookupCall) :
    (∃ t' id, call.exec col newId answer t = .ok (t', id) ∧ (id = 0 ∨ call.Names col t' id)) ↔
      (answer.grabbed = true → answer.select = .done →
        (∃ id, call.Names col t id) ∨ (call.Inserts ∧ answer.insert = .done)) := by
  cases call with
  | getHost name =>
      simp only [LookupCall.Inserts, true_and]
      exact getOrCreate_spec answer (fun row => col.same row.name name) NameRow.id ⟨newId, name⟩
        t.hosts (fun hosts => { t with hosts := hosts })
        (fun t id => LookupCall.Names col t id (.getHost name)) (col.refl name) fun _ _ => Iff.rfl
  | getService hostId name =>
      simp only [LookupCall.Inserts, true_and]
      exact getOrCreate_spec answer (fun row => row.hostId = hostId ∧ col.same row.name name)
        ServiceRow.id ⟨newId, hostId, none, name⟩ t.services
        (fun services => { t with services := services })
        (fun t id => LookupCall.Names col t id (.getService hostId name)) (by simp [col.refl])
        fun _ _ => by simp [LookupCall.Names]
  | getServiceType name =>
      simp only [LookupCall.Inserts, true_and]
      exact getOrCreate_spec answer (fun row => col.same row.name name) NameRow.id ⟨newId, name⟩
        t.types (fun types => { t with types := types })
        (fun t id => LookupCall.Names col t id (.getServiceType name)) (col.refl name)
        fun _ _ => Iff.rfl
  | getEventType name =>
      simp only [LookupCall.Inserts, true_and]
      exact getOrCreate_spec answer (isEventType col name) NameRow.id ⟨newId, name⟩
        t.eventTypes (fun eventTypes => { t with eventTypes := eventTypes })
        (fun t id => LookupCall.Names col t id (.getEventType name)) (col.refl (lower name))
        fun _ _ => Iff.rfl
  | getBackend me cfg =>
      simp only [LookupCall.Inserts, true_and]
      exact getOrCreate_spec answer
        (fun row => col.same row.hostname me ∧ col.same row.filename cfg) BackendRow.id
        ⟨newId, me, cfg⟩ t.backends (fun backends => { t with backends := backends })
        (fun t id => LookupCall.Names col t id (.getBackend me cfg)) (by simp [col.refl])
        fun _ _ => by simp [LookupCall.Names]
  | getRessourceId origin name =>
      have hselect := selectId_spec answer (Catalog.isRessource col origin name) RessourceRow.id
        t.ressources
      have hknown : (∃ id, LookupCall.Names col t id (.getRessourceId origin name)) ↔
          t.ressources.any (Catalog.isRessource col origin name) = true := by
        simp [LookupCall.Names]
      rw [hknown]
      simp only [LookupCall.Inserts, false_and, or_false, LookupCall.exec,
        LookupAnswer.getRessourceId]
      cases answer.grabbed with
      | false => simp
      | true =>
          simp only [if_true, forall_const]
          rw [← hselect]
          constructor
          · rintro ⟨t', id, hrun, hid⟩
            obtain ⟨id', hsel, heq⟩ := bind_eq_ok.mp hrun
            cases heq
            exact ⟨id, hsel, hid⟩
          · rintro ⟨id, hsel, hid⟩
            exact ⟨t, id, by simp [hsel], hid⟩

/-- A host whose insert fails, of a table that is empty: the select has no first row. -/
theorem failed_insert_reads_nothing :
    ¬ ∃ t' id, LookupCall.exec Collation.binary 1 ⟨true, .done, .failed, .done⟩
        ⟨[], [], [], [], [], []⟩ (.getHost "web") = .ok (t', id) ∧
      (id = 0 ∨ LookupCall.Names Collation.binary t' id (.getHost "web")) := by
  rintro ⟨t', id, hrun, -⟩
  have hcrash : LookupCall.exec Collation.binary 1 ⟨true, .done, .failed, .done⟩
      ⟨[], [], [], [], [], []⟩ (.getHost "web") = .error .outOfBounds := rfl
  rw [hcrash] at hrun
  cases hrun

/-! ### Lookups whose statements are carried out -/

/-- With a connection and every statement carried out. -/
def LookupAnswer.carriedOut : LookupAnswer := ⟨true, .done, .done, .done⟩

/-- The lookups are then those of the update. -/
theorem getOrCreate_carriedOut (found : NameRow → Bool) (name : String) (newId : ℕ)
    (rows : List NameRow) (hname : found ⟨newId, name⟩ = true) :
    LookupAnswer.carriedOut.getOrCreate found NameRow.id ⟨newId, name⟩ rows =
      .ok (getName found name newId rows) := by
  by_cases hany : rows.any found = true
  · obtain ⟨r, hr⟩ := Option.isSome_iff_exists.mp
      (List.find?_isSome.mpr (List.any_eq_true.mp hany))
    simp [LookupAnswer.getOrCreate, LookupAnswer.carriedOut, LookupAnswer.insertMissing,
      LookupAnswer.selectId, selectFirst, haveRow, getName, hany, hr]
  · have hnone : rows.find? found = none := by
      rw [List.find?_eq_none]
      intro r hr hfound
      exact hany (List.any_eq_true.mpr ⟨r, hr, hfound⟩)
    simp [LookupAnswer.getOrCreate, LookupAnswer.carriedOut, LookupAnswer.insertMissing,
      LookupAnswer.selectId, selectFirst, haveRow, getName, hany, hnone, hname]

end WatchedBack
