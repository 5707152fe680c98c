import WatchedBack.Verification.Collect.Logs

/-! # The levels of alerts

The ids of the seeded event types count downwards in severity, the levels of the alerters
upwards. `collect` sends the largest id of the new log entries, which is that of the least
severe one. -/

namespace WatchedBack

open Fallible

/-! ### Severities -/

inductive Severity
  | information | notice | warning | error | critical
  deriving DecidableEq, Repr

namespace Severity

/-- The name under which the severity is seeded. -/
def name : Severity → String
  | information => "Information"
  | notice => "Notice"
  | warning => "Warning"
  | error => "Error"
  | critical => "Critical"

/-- The id under which it is seeded. -/
def seedId : Severity → ℕ
  | information => 5
  | notice => 4
  | warning => 3
  | error => 2
  | critical => 1

/-- The level that an alerter should get. -/
def level : Severity → AlertLevel
  | information => .info
  | notice => .notice
  | warning => .warning
  | error => .error
  | critical => .critical

theorem seedId_add_level (s : Severity) : s.seedId + s.level.toNat = 6 := by
  cases s <;> rfl

theorem mem_seedEventTypes {row : NameRow} :
    row ∈ seedEventTypes ↔ ∃ s : Severity, row = ⟨s.seedId, s.name⟩ := by
  constructor
  · intro h
    simp only [seedEventTypes, List.mem_cons, List.not_mem_nil, or_false] at h
    rcases h with rfl | rfl | rfl | rfl | rfl
    · exact ⟨critical, rfl⟩
    · exact ⟨error, rfl⟩
    · exact ⟨warning, rfl⟩
    · exact ⟨notice, rfl⟩
    · exact ⟨information, rfl⟩
  · rintro ⟨s, rfl⟩
    cases s <;> decide

end Severity

/-! ### The table of event types -/

section eventTypes

variable {col : Collation} {rows : List NameRow} {name : String} {id : ℕ}

/-- The collation tells the seeded names apart. -/
def Collation.SeparatesSeeds (col : Collation) : Prop :=
  ∀ s s' : Severity, col.same (lower s.name) (lower s'.name) = true → s = s'

/-- The name is that of the severity, whatever its case. -/
def Severity.Named (col : Collation) (s : Severity) (name : String) : Prop :=
  col.same (lower s.name) (lower name) = true

/-- What `getEventType` can make of the seed. -/
inductive EventTypesReachable (col : Collation) : List NameRow → Prop
  | seed : EventTypesReachable col seedEventTypes
  | get (name : String) (id : ℕ) {rows : List NameRow} :
      EventTypesReachable col rows → id ∉ rows.map NameRow.id →
        EventTypesReachable col (getEventType col name id rows).1

theorem getEventType_fst :
    (getEventType col name id rows).1 =
      if rows.any (isEventType col name) then rows else rows ++ [⟨id, name⟩] := rfl

/-- The seed stays in front, and nothing behind it has a seeded name. -/
theorem EventTypesReachable.eq_append (h : EventTypesReachable col rows) :
    ∃ more, rows = seedEventTypes ++ more ∧
      ∀ row ∈ more, ∀ s : Severity, ¬ s.Named col row.name := by
  induction h with
  | seed => exact ⟨[], by simp⟩
  | @get name id rows _ _ ih =>
      obtain ⟨more, rfl, hmore⟩ := ih
      rw [getEventType_fst]
      split
      · exact ⟨more, rfl, hmore⟩
      · next hnone =>
        refine ⟨more ++ [⟨id, name⟩], by simp, fun row hrow s hs => ?_⟩
        rcases List.mem_append.mp hrow with hold | hnew
        · exact hmore row hold s hs
        · obtain rfl := List.mem_singleton.mp hnew
          -- the name would have been found in the seed
          refine hnone (List.any_eq_true.mpr ⟨⟨s.seedId, s.name⟩, ?_, hs⟩)
          exact List.mem_append_left _ (Severity.mem_seedEventTypes.mpr ⟨s, rfl⟩)

/-- The only row of a seeded name is the seeded one. -/
theorem EventTypesReachable.mem_iff (h : EventTypesReachable col rows)
    (hsep : col.SeparatesSeeds) {s : Severity} (row : NameRow) (hs : s.Named col row.name) :
    row ∈ rows ↔ row = ⟨s.seedId, s.name⟩ := by
  obtain ⟨more, rfl, hmore⟩ := h.eq_append
  rw [List.mem_append, Severity.mem_seedEventTypes]
  constructor
  · intro hrow
    rcases hrow with ⟨s', rfl⟩ | hrow
    · rw [hsep s s' hs]
    · exact absurd hs (hmore row hrow s)
  · exact fun hrow => Or.inl ⟨s, hrow⟩

/-- A seeded name is looked up under its seeded id, and adds no row. -/
theorem EventTypesReachable.getEventType_eq (h : EventTypesReachable col rows)
    (hsep : col.SeparatesSeeds) {s : Severity} (hs : s.Named col name) :
    getEventType col name id rows = (rows, s.seedId) := by
  have hseed : s.Named col (NameRow.name ⟨s.seedId, s.name⟩) := col.refl _
  have hrow : (⟨s.seedId, s.name⟩ : NameRow) ∈ rows := (h.mem_iff hsep _ hseed).mpr rfl
  have hfound : isEventType col name ⟨s.seedId, s.name⟩ = true := hs
  have hany : rows.any (isEventType col name) = true := List.any_eq_true.mpr ⟨_, hrow, hfound⟩
  have hfind : rows.find? (isEventType col name) = some ⟨s.seedId, s.name⟩ := by
    obtain ⟨row, hsome⟩ := Option.isSome_iff_exists.mp (List.find?_isSome.mpr ⟨_, hrow, hfound⟩)
    have hname : isEventType col name row = true := List.find?_some hsome
    have hnamed : s.Named col row.name := col.trans hs (col.symm hname)
    rw [hsome, (h.mem_iff hsep _ hnamed).mp (List.mem_of_find?_eq_some hsome)]
  simp [getEventType, getName, hany, hfind]

end eventTypes

/-! ### Scanning the log entries of a service -/

section scan

variable {col : Collation} {carried : ℕ → Bool} {servId : ℕ} {s s' : LogScan} {entry : Json}
  {entries : List Json}

/-- The entries that are not stored yet when the loop reaches them. -/
def newEntries (col : Collation) (carried : ℕ → Bool) (servId : ℕ) (s : LogScan) :
    List Json → List Json
  | [] => []
  | entry :: entries =>
      match collectLog col carried servId s entry with
      | .error _ => []
      | .ok s' =>
          if s.isNew col servId entry then entry :: newEntries col carried servId s' entries
          else newEntries col carried servId s' entries

/-- The level of an entry names the severity. -/
def Severity.Labels (col : Collation) (sev : Severity) (entry : Json) : Prop :=
  ∃ level, entry.member "level" >>= Json.asString = .ok level ∧ sev.Named col level

/-- The highest level among entries. -/
def highestLevel (sev : Json → Severity) (entries : List Json) : ℕ :=
  (entries.map fun e => (sev e).level.toNat).foldr max 0

/-- The lowest level among entries; no level exceeds 5. -/
def lowestLevel (sev : Json → Severity) (entries : List Json) : ℕ :=
  (entries.map fun e => (sev e).level.toNat).foldr min 6

theorem lowestLevel_le {sev : Json → Severity} (h : entry ∈ entries) :
    lowestLevel sev entries ≤ (sev entry).level.toNat := by
  induction entries with
  | nil => cases h
  | cons e entries ih =>
      rcases List.mem_cons.mp h with rfl | h
      · exact min_le_left _ _
      · exact (min_le_right _ _).trans (ih h)

theorem lowestLevel_attained {sev : Json → Severity} (h : entries ≠ []) :
    ∃ e ∈ entries, (sev e).level.toNat = lowestLevel sev entries := by
  induction entries with
  | nil => exact absurd rfl h
  | cons e entries ih =>
      rcases Nat.le_total (sev e).level.toNat (lowestLevel sev entries) with hle | hge
      · exact ⟨e, List.mem_cons_self, (min_eq_left hle).symm⟩
      · cases entries with
        | nil =>
            have hsum := (sev e).seedId_add_level
            have hsix : 6 ≤ (sev e).level.toNat := hge
            have hpos : 0 < (sev e).seedId := by
              cases sev e <;> decide
            omega
        | cons e' entries =>
            obtain ⟨x, hx, heq⟩ := ih (List.cons_ne_nil _ _)
            exact ⟨x, List.mem_cons_of_mem _ hx, heq.trans (min_eq_right hge).symm⟩

/-- A new entry raises the largest id to that of its level. -/
theorem collectLog_maxlvl (h : collectLog col carried servId s entry = .ok s') :
    (s.isNew col servId entry = false ∧ s' = s) ∨
      (s.isNew col servId entry = true ∧ ∃ level newId,
        entry.member "level" >>= Json.asString = .ok level ∧
        s'.round.alerts = s.round.alerts ∧
        s'.round.tables.eventTypes = (getEventType col level newId s.round.tables.eventTypes).1 ∧
        s'.maxlvl = max s.maxlvl (getEventType col level newId s.round.tables.eventTypes).2) := by
  rcases collectLog_cases h with hold | ⟨hnew, -, level, line, row, hlevel, rfl⟩
  · exact Or.inl hold
  · refine Or.inr ⟨hnew, level, nextId (s.round.tables.eventTypes.map NameRow.id), hlevel, rfl,
      ?_, ?_⟩
    · simp only [LogScan.add, Round.exec]
      split <;> rfl
    · simp only [LogScan.add]
      split <;> omega

/-- The scan ends with the largest id of the new entries. -/
theorem scan_spec {sev : Json → Severity} (hsep : col.SeparatesSeeds)
    (hrun : entries.foldlM (collectLog col carried servId) s = .ok s')
    (htypes : EventTypesReachable col s.round.tables.eventTypes)
    (hsev : ∀ e ∈ newEntries col carried servId s entries, (sev e).Labels col e) :
    s'.round.alerts = s.round.alerts ∧ s.maxlvl ≤ s'.maxlvl ∧
      (∀ e ∈ newEntries col carried servId s entries, (sev e).seedId ≤ s'.maxlvl) ∧
      (s'.maxlvl = s.maxlvl ∨
        ∃ e ∈ newEntries col carried servId s entries, s'.maxlvl = (sev e).seedId) := by
  induction entries generalizing s with
  | nil =>
      cases hrun
      exact ⟨rfl, le_rfl, by simp [newEntries], Or.inl rfl⟩
  | cons entry entries ih =>
      obtain ⟨m, hstep, hrest⟩ := foldlM_cons_eq_ok.mp hrun
      rw [newEntries, hstep] at hsev ⊢
      rcases collectLog_maxlvl hstep with ⟨hold, rfl⟩ | ⟨hnew, level, newId, hlevel, halerts, htab, hmax⟩
      · simp only [hold, Bool.false_eq_true, if_false] at hsev ⊢
        exact ih hrest htypes hsev
      · simp only [hnew, if_true] at hsev ⊢
        obtain ⟨level', hlevel', hnamed⟩ := hsev entry List.mem_cons_self
        obtain rfl : level' = level := Except.ok.inj (hlevel'.symm.trans hlevel)
        rw [htypes.getEventType_eq hsep hnamed] at htab hmax
        simp only at htab hmax
        obtain ⟨ha, hle, hall, hsome⟩ := ih hrest (htab ▸ htypes)
          (fun e he => hsev e (List.mem_cons_of_mem _ he))
        refine ⟨ha.trans halerts, by omega, ?_, ?_⟩
        · intro e he
          rcases List.mem_cons.mp he with rfl | he
          · omega
          · exact hall e he
        · rcases hsome with heq | ⟨e, he, heq⟩
          · rcases Nat.le_total s.maxlvl (sev entry).seedId with hmore | hless
            · exact Or.inr ⟨entry, List.mem_cons_self, by omega⟩
            · exact Or.inl (by omega)
          · exact Or.inr ⟨e, List.mem_cons_of_mem _ he, heq⟩

/-- The alert is sent under the id of the least severe new entry. -/
theorem collectLogs_alerts {sev : Json → Severity} {r r' : Round} {hostId : ℕ}
    (hsep : col.SeparatesSeeds) (htypes : EventTypesReachable col r.tables.eventTypes)
    (hrun : collectLogs col carried hostId servId r entries = .ok r')
    (hsev : ∀ e ∈ newEntries col carried servId ⟨r, "", 0⟩ entries, (sev e).Labels col e)
    (hne : newEntries col carried servId ⟨r, "", 0⟩ entries ≠ []) :
    ∃ lvl lines, r'.alerts = r.alerts ++ [.log hostId servId lvl lines] ∧
      lvl + lowestLevel sev (newEntries col carried servId ⟨r, "", 0⟩ entries) = 6 := by
  obtain ⟨s, hscan, hres⟩ := bind_eq_ok.mp hrun
  obtain ⟨ha, -, hall, hsome⟩ := scan_spec hsep hscan htypes hsev
  obtain ⟨least, hleast, hlow⟩ := @lowestLevel_attained _ sev hne
  have hge := hall least hleast
  have hsum := (sev least).seedId_add_level
  have hpos : 0 < (sev least).seedId := by
    cases sev least <;> decide
  have hmax : s.maxlvl = (sev least).seedId := by
    rcases hsome with heq | ⟨e, he, heq⟩
    · have hzero : s.maxlvl = 0 := heq
      omega
    · have hle := @lowestLevel_le e _ sev he
      have hsum' := (sev e).seedId_add_level
      omega
  rw [if_pos (by omega)] at hres
  cases hres
  refine ⟨s.maxlvl, s.text, ?_, by omega⟩
  rw [ha]

end scan

/-- The level of a log alert is the highest level of the new entries if and only if the highest
and the lowest one lie symmetrically about a warning; that of an event is the level of its type
if and only if the type is a warning. -/
theorem alert_levels_iff {col : Collation} (hsep : col.SeparatesSeeds) (carried : ℕ → Bool)
    {r r' : Round} {hostId servId : ℕ} {entries news : List Json} {sev : Json → Severity}
    (htypes : EventTypesReachable col r.tables.eventTypes)
    (hrun : collectLogs col carried hostId servId r entries = .ok r')
    (hnews : news = newEntries col carried servId ⟨r, "", 0⟩ entries) (hne : news ≠ [])
    (hsev : ∀ e ∈ news, (sev e).Labels col e) :
    (∃ lvl lines, r'.alerts = r.alerts ++ [.log hostId servId lvl lines] ∧
      (∀ alerters t dests, ∀ d ∈ (ServiceAlert.log hostId servId lvl lines).deliveries alerters t dests,
        d.level = lvl) ∧
      (lvl = highestLevel sev news ↔ highestLevel sev news + lowestLevel sev news = 6)) ∧
    ∀ (a : Alert) (s : Severity) (name : String), s.Named col name →
      ⟨a.event.eventType, name⟩ ∈ r.tables.eventTypes →
        (a.level = s.level.toNat ↔ s = .warning) := by
  subst hnews
  refine ⟨?_, ?_⟩
  · obtain ⟨lvl, lines, halerts, hsum⟩ := collectLogs_alerts hsep htypes hrun hsev hne
    refine ⟨lvl, lines, halerts, ?_, by omega⟩
    intro alerters t dests d hd
    obtain ⟨dest, -, hd⟩ := List.mem_flatMap.mp hd
    rw [send] at hd
    split at hd
    · rw [List.mem_singleton.mp hd]
    · cases hd
  · intro a s name hs hmem
    have hrow := (htypes.mem_iff hsep ⟨a.event.eventType, name⟩ hs).mp hmem
    have hid : a.level = s.seedId := congrArg NameRow.id hrow
    rw [hid]
    cases s <;> decide

/-! ### One entry -/

/-- A log entry of the seeded level. -/
def logEntry (level : String) : Json :=
  .obj [("source", .str "app"), ("line_no", .int 7), ("date_mark", .str "Jan 1"),
    ("text", .str "line"), ("level", .str level), ("timestamp", .int 1000)]

/-- The seed, and nothing else. -/
def seeded : Round := ⟨⟨[], [], seedEventTypes, [], [], [], [], []⟩, 0, []⟩

theorem separatesSeeds_binary : Collation.binary.SeparatesSeeds := by
  have h : ∀ s s' : Severity, lower s.name = lower s'.name → s = s' := by
    intro s s'
    cases s <;> cases s' <;> decide +kernel
  exact fun s s' heq => h s s' (of_decide_eq_true heq)

theorem newEntries_warning :
    newEntries .binary (fun _ => true) 2 ⟨seeded, "", 0⟩ [logEntry "WARNING"] =
      [logEntry "WARNING"] := by
  have hmaxlvl : (collectLog .binary (fun _ => true) 2 ⟨seeded, "", 0⟩
      (logEntry "WARNING")).toOption.map LogScan.maxlvl = some 3 := by
    decide +kernel
  obtain ⟨s', hstep, -⟩ := exists_ok_of_toOption_map hmaxlvl
  have hisNew : LogScan.isNew .binary 2 ⟨seeded, "", 0⟩ (logEntry "WARNING") = true := by
    decide +kernel
  rw [newEntries, hstep]
  simp only [hisNew, if_true, newEntries]

theorem labels_warning : Severity.warning.Labels .binary (logEntry "WARNING") := by
  refine ⟨"WARNING", eq_ok_of_toOption (by decide +kernel), ?_⟩
  unfold Severity.Named
  decide +kernel

theorem alert_levels_warning :
    ∃ r', collectLogs .binary (fun _ => true) 1 2 seeded [logEntry "WARNING"] = .ok r' ∧
      ∃ lvl lines, r'.alerts = seeded.alerts ++ [.log 1 2 lvl lines] ∧
        lvl = highestLevel (fun _ => .warning) [logEntry "WARNING"] := by
  have hsent : (collectLogs .binary (fun _ => true) 1 2 seeded
      [logEntry "WARNING"]).toOption.map Round.sent = some 1 := by
    decide +kernel
  obtain ⟨r', hrun, -⟩ := exists_ok_of_toOption_map hsent
  have hlabels : ∀ e ∈ [logEntry "WARNING"], Severity.warning.Labels .binary e := by
    intro e he
    rw [List.mem_singleton.mp he]
    exact labels_warning
  obtain ⟨⟨lvl, lines, halerts, -, hiff⟩, -⟩ :=
    alert_levels_iff separatesSeeds_binary (fun _ => true) .seed hrun newEntries_warning.symm
      (List.cons_ne_nil _ _) hlabels
  exact ⟨r', hrun, lvl, lines, halerts, hiff.mpr rfl⟩

/-- A critical entry is sent under the level of an information, which no mail is sent for. -/
theorem critical_entry_is_discarded :
    ∃ r', collectLogs .binary (fun _ => true) 1 2 seeded [logEntry "Critical"] = .ok r' ∧
      r'.alerts = [.log 1 2 AlertLevel.info.toNat "line\n"] ∧
      emailSends AlertLevel.info.toNat = false ∧
      Severity.critical.level.toNat ≠ AlertLevel.info.toNat := by
  have hrun : (collectLogs .binary (fun _ => true) 1 2 seeded
      [logEntry "Critical"]).toOption.map Round.alerts =
        some [.log 1 2 AlertLevel.info.toNat "line\n"] := by
    decide +kernel
  obtain ⟨r', hrun, halerts⟩ := exists_ok_of_toOption_map hrun
  exact ⟨r', hrun, halerts, by decide, by decide⟩

end WatchedBack
