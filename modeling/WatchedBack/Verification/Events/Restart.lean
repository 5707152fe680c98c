import WatchedBack.Verification.Events.Agreement

/-! # Restarting between two lines

What `init` loads after a run is what the run left in memory, so the lines that follow
cannot tell a restarted client from the old one. -/

namespace WatchedBack

open Fallible

/-- The state of a client set up anew from the database. -/
def RessourceClient.restart (c : RessourceClient) (s : ParseState) : ParseState :=
  { s with currentEvents := (c.init s.db).currentEvents }

section run

variable {c : RessourceClient} {answers : ℕ → Answer} {line : Json} {s s' : ParseState}

theorem exec_eventFactory (stmt : EventStmt) (isService : Bool) :
    (s.exec c answers stmt).1.db.eventFactory isService = s.db.eventFactory isService :=
  Database.eventFactory_setResEvents ..

/-- `parse` leaves the factory tables alone. -/
theorem parseLine_eventFactory (isService : Bool) (h : parseLine c answers line s = .ok s') :
    s'.db.eventFactory isService = s.db.eventFactory isService := by
  refine parseLine_invariant
    (fun t => t.db.eventFactory isService = s.db.eventFactory isService) ?_ ?_ ?_ rfl h
  · intro t t' e ht hstep
    rcases openEvent_cases hstep with ⟨-, rfl⟩ | ⟨-, -, current, rfl⟩ |
      ⟨-, -, ts, current, value, rfl⟩
    · exact ht
    · exact (exec_eventFactory _ _).trans ht
    · exact (exec_eventFactory (.insertEvent c.hostId c.resId ts e current) _).trans ht
  · intro t t' entry ht hstep
    rcases closeEvent_cases hstep with ⟨-, rfl⟩ | ⟨-, ts, rfl⟩
    · exact ht
    · exact (exec_eventFactory (.setEndTime entry.1 ts) _).trans ht
  · exact fun t inserts ht => ht

theorem parseLines_eventFactory {lines : List Json} (isService : Bool)
    (h : parseLines c answers s lines = .ok s') :
    s'.db.eventFactory isService = s.db.eventFactory isService :=
  foldlM_invariant (fun t => t.db.eventFactory isService = s.db.eventFactory isService)
    (fun _ _ _ _ ht hx => (parseLine_eventFactory isService hx).trans ht) rfl h

/-- The open events are read from the state, not from the client. -/
theorem parseLines_setCurrentEvents (m : EventMap) (lines : List Json) :
    parseLines { c with currentEvents := m } answers s lines = parseLines c answers s lines := rfl

end run

/-- A client loaded from a database with the same factory differs in its open events only. -/
theorem RessourceClient.init_eq {c : RessourceClient} {db db' : Database} (hnew : c.IsNew)
    (hfactory : db'.eventFactory c.isService = db.eventFactory c.isService) :
    c.init db' = { c.init db with currentEvents := (c.init db').currentEvents } := by
  have h : (c.init db').eventFactory = (c.init db).eventFactory := by
    rw [init_eventFactory hnew, init_eventFactory hnew, hfactory]
  have hself : c.init db' = { c.init db with
      eventFactory := (c.init db').eventFactory
      currentEvents := (c.init db').currentEvents } := rfl
  rw [hself, h]

theorem tracked_init {c : RessourceClient} {db : Database} {answers : ℕ → Answer} (hnew : c.IsNew)
    (hids : 0 ∉ (db.resEvents c.isService).ids)
    (hfresh : FreshIds answers (c.init db) (.start (c.init db).currentEvents db)) :
    Tracked answers (c.init db) (.start (c.init db).currentEvents db) := by
  refine ⟨?_, hfresh⟩
  rw [mem_iff_exists_lookup]
  rintro ⟨e, he⟩
  obtain ⟨row, hrow, -, h0, -⟩ := (c.init_agrees hnew 0 e).mp he
  exact hids (List.mem_map.mpr ⟨row, hrow, h0⟩)

/-- Restarting the client between any two lines changes nothing: neither the alerts, nor the
rows, nor anything else that the run leaves behind. -/
theorem restart_transparent (c : RessourceClient) (db : Database) (answers : ℕ → Answer)
    (pre post : List Json) (hnew : c.IsNew) (hids : 0 ∉ (db.resEvents c.isService).ids)
    (hok : ∀ n, answers n ≠ .failed)
    (hfresh : FreshIds answers (c.init db) (.start (c.init db).currentEvents db)) :
    parseLines (c.init db) answers (.start (c.init db).currentEvents db) (pre ++ post) =
      (do
        let m ← parseLines (c.init db) answers (.start (c.init db).currentEvents db) pre
        parseLines (c.init m.db) answers (c.restart m) post) := by
  have hsplit : parseLines (c.init db) answers (.start (c.init db).currentEvents db) (pre ++ post) =
      (do
        let m ← parseLines (c.init db) answers (.start (c.init db).currentEvents db) pre
        parseLines (c.init db) answers m post) := List.foldlM_append
  rw [hsplit]
  cases hm : parseLines (c.init db) answers (.start (c.init db).currentEvents db) pre with
  | error f => rfl
  | ok m =>
      have hU : m.Unharmed :=
        unharmed_of_answers hok (by simp [ParseState.Answered, ParseState.start]) hm
      have hA : m.Agrees (c.init db) :=
        parseLines_agrees (c.init_storable hnew) (tracked_init hnew hids hfresh)
          (c.init_agrees hnew) hU hm
      have hsame : (c.init m.db).currentEvents = m.currentEvents :=
        (c.init_agrees hnew).unique hA
      have hclient := c.init_eq hnew (parseLines_eventFactory c.isService hm)
      have hstate : c.restart m = m := by
        rw [RessourceClient.restart, hsame]
      rw [ok_bind, ok_bind, hstate, hclient]
      exact (parseLines_setCurrentEvents _ post).symm

/-! ### A disk -/

/-- The client of a disk before `init`. -/
def newDisk : RessourceClient :=
  { diskClient with eventFactory := [], currentEvents := ∅ }

/-- A warning for every disk with less than a quarter of free space. -/
def diskDatabase : Database :=
  { emptyDatabase with
    hEventFactory := [⟨none, none, some "disk_usage", 3, "pctfree", '<', ⟨250000⟩⟩] }

theorem newDisk_isNew : newDisk.IsNew := ⟨rfl, rfl⟩

theorem newDisk_fresh {answers : ℕ → Answer} (hne : ∀ n id, answers n = .ok id → id ≠ 0)
    (honce : ∀ m n id, answers m = .ok id → answers n = .ok id → m = n) :
    FreshIds answers (newDisk.init diskDatabase)
      (.start (newDisk.init diskDatabase).currentEvents diskDatabase) where
  ne_zero := hne
  once := honce
  not_open := by
    intro n id _ _
    rw [mem_iff_exists_lookup]
    rintro ⟨e, he⟩
    obtain ⟨row, hrow, -⟩ := (newDisk.init_agrees newDisk_isNew id e).mp he
    cases hrow
  not_row := by
    intro n id _ _ hid
    cases hid

theorem newDisk_counted :
    FreshIds countedIds (newDisk.init diskDatabase)
      (.start (newDisk.init diskDatabase).currentEvents diskDatabase) := by
  apply newDisk_fresh
  · intro n id h
    cases h
    omega
  · intro m n id hm hn
    cases hm
    cases hn
    rfl

theorem restart_transparent_disk :
    parseLines (newDisk.init diskDatabase) countedIds
        (.start (newDisk.init diskDatabase).currentEvents diskDatabase)
        ([diskLine 1000 10] ++ [diskLine 2000 20]) =
      (do
        let m ← parseLines (newDisk.init diskDatabase) countedIds
          (.start (newDisk.init diskDatabase).currentEvents diskDatabase) [diskLine 1000 10]
        parseLines (newDisk.init m.db) countedIds (newDisk.restart m) [diskLine 2000 20]) := by
  apply restart_transparent newDisk diskDatabase countedIds [diskLine 1000 10] [diskLine 2000 20]
    newDisk_isNew (by decide) (fun n => by simp [countedIds]) newDisk_counted

end WatchedBack
