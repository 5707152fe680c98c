import WatchedBack.Model.Collect
import WatchedBack.Library.Fallible

/-! # One log entry of a reply -/

namespace WatchedBack

open Fallible

namespace Json

variable {v : Json} {p : String} {s : String}

/-- A string is read alike by both conversions. -/
theorem asString_of_asCString (h : v.asCString = .ok s) : v.asString = .ok s := by
  cases v with
  | str s => exact h
  | _ => cases h

theorem succeeds_asString (h : Succeeds (v.member p >>= asCString)) :
    Succeeds (v.member p >>= asString) := by
  obtain ⟨s, hs⟩ := h
  obtain ⟨w, hw, hs⟩ := bind_eq_ok.mp hs
  exact ⟨s, bind_eq_ok.mpr ⟨w, hw, asString_of_asCString hs⟩⟩

/-- Reading a member, converting it and going on. -/
theorem read_bind {α β : Type} {f : Json → Except Fault α} {x : α} {k : α → Except Fault β}
    (h : v.member p >>= f = .ok x) : (v.member p >>= fun w => f w >>= k) = k x := by
  obtain ⟨w, hw, hx⟩ := bind_eq_ok.mp h
  rw [hw, ok_bind, hx, ok_bind]

theorem read_bind_eq_ok {α β : Type} {f : Json → Except Fault α} {k : α → Except Fault β} {b : β} :
    (v.member p >>= fun w => f w >>= k) = .ok b ↔ ∃ x, v.member p >>= f = .ok x ∧ k x = .ok b := by
  rw [← bind_assoc, bind_eq_ok]

end Json

/-- A log entry of the types that `collect` reads. -/
structure LogOk (entry : Json) : Prop where
  source : Succeeds (entry.member "source" >>= Json.asCString)
  lineNo : Succeeds (entry.member "line_no" >>= Json.asUInt)
  dateMark : Succeeds (entry.member "date_mark" >>= Json.asCString)
  text : Succeeds (entry.member "text" >>= Json.asCString)
  level : Succeeds (entry.member "level" >>= Json.asString)
  timestamp : Succeeds (entry.member "timestamp" >>= Json.asDouble)

section scan

variable {col : Collation} {carried : ℕ → Bool} {servId : ℕ} {s s' : LogScan} {entry : Json}

/-- The entry is not stored yet. -/
def LogScan.isNew (col : Collation) (servId : ℕ) (s : LogScan) (entry : Json) : Bool :=
  match entry.member "source" >>= Json.asString, entry.member "line_no" >>= Json.asUInt,
    entry.member "date_mark" >>= Json.asString with
  | .ok source, .ok lineNo, .ok date =>
      !s.round.tables.haveLogEvent col servId source lineNo date
  | _, _, _ => false

/-- After a new entry of a level has been handled. -/
def LogScan.add (col : Collation) (carried : ℕ → Bool) (s : LogScan) (level line : String)
    (row : ℕ → LogRow) : LogScan :=
  let types := s.round.tables.eventTypes
  let (types, eventType) := getEventType col level (nextId (types.map NameRow.id)) types
  let round := { s.round with tables := { s.round.tables with eventTypes := types } }
  { round := round.exec carried fun t => t.insertLog col (row eventType)
    text := s.text ++ line ++ "\n"
    maxlvl := if s.maxlvl < eventType then eventType else s.maxlvl }

/-- Everything that the loop can do with an entry. -/
theorem collectLog_cases (h : collectLog col carried servId s entry = .ok s') :
    (s.isNew col servId entry = false ∧ s' = s) ∨
      (s.isNew col servId entry = true ∧ LogOk entry ∧ ∃ level line row,
        entry.member "level" >>= Json.asString = .ok level ∧
          s' = s.add col carried level line row) := by
  simp only [collectLog, Json.read_bind_eq_ok] at h
  obtain ⟨source, hsource, lineNo, hline, date, hdate, h⟩ := h
  have hnew : s.isNew col servId entry =
      !s.round.tables.haveLogEvent col servId source lineNo date := by
    rw [LogScan.isNew, hsource, hline, hdate]
  split at h
  · next hhave =>
    cases h
    exact Or.inl ⟨by simp [hnew, hhave], rfl⟩
  · next hhave =>
    refine Or.inr ⟨by simp [hnew, hhave], ?_⟩
    simp only [Json.read_bind_eq_ok] at h
    obtain ⟨line, -, level, hlevel, ts, hts, src, hsrc, dm, hdm, ln, hln, txt, htxt, h⟩ := h
    cases h
    exact ⟨⟨⟨src, hsrc⟩, ⟨ln, hln⟩, ⟨dm, hdm⟩, ⟨txt, htxt⟩, ⟨level, hlevel⟩, ⟨ts, hts⟩⟩, level, line,
      fun eventType => ⟨servId, ts, eventType, src, dm, ln, txt⟩, hlevel, rfl⟩

theorem LogScan.isNew_of_empty (he : s.round.tables.logEvents = [])
    (h : collectLog col carried servId s entry = .ok s') : s.isNew col servId entry = true := by
  simp only [collectLog, Json.read_bind_eq_ok] at h
  obtain ⟨source, hsource, lineNo, hline, date, hdate, -⟩ := h
  simp [isNew, hsource, hline, hdate, ServiceTables.haveLogEvent, he]

/-- An entry of the right types is handled in every state. -/
theorem collectLog_of_logOk (h : LogOk entry) :
    Succeeds (collectLog col carried servId s entry) := by
  obtain ⟨source, hsource⟩ := Json.succeeds_asString h.source
  obtain ⟨src, hsrc⟩ := h.source
  obtain ⟨ln, hln⟩ := h.lineNo
  obtain ⟨date, hdate⟩ := Json.succeeds_asString h.dateMark
  obtain ⟨dm, hdm⟩ := h.dateMark
  obtain ⟨line, hline⟩ := Json.succeeds_asString h.text
  obtain ⟨txt, htxt⟩ := h.text
  obtain ⟨level, hlevel⟩ := h.level
  obtain ⟨ts, hts⟩ := h.timestamp
  simp only [collectLog, Json.read_bind hsource, Json.read_bind hln, Json.read_bind hdate]
  split
  · exact succeeds_ok s
  · simp only [Json.read_bind hline, Json.read_bind hlevel, Json.read_bind hts,
      Json.read_bind hsrc, Json.read_bind hdm, Json.read_bind htxt]
    exact succeeds_ok _

end scan

end WatchedBack
