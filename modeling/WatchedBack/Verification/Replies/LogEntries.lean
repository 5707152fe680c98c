import WatchedBack.Verification.Replies.Outcome

/-! # Log entries

The first entry of each identity is stored, and sent with the other new ones of its service. No
other entry of the identity is either. -/

namespace WatchedBack

open Fallible Reports

section lines

variable {col : Collation} {t t' : ServiceTables} {reports reports' : List ServiceReport}
  {alerts : List ServiceAlert}

/-- No two rows of `s$log_events` have one identity. -/
def ServiceTables.UniqueLines (col : Collation) (t : ServiceTables) : Prop :=
  t.lines.Pairwise fun line line' => (LogLine.likeness col).same line line' = false

/-- The new lines of reports in turn are the first lines of all of them. -/
theorem inTurn_newLines (seen : List LogLine) (reports : List ServiceReport) :
    inTurn ServiceReport.lines (fun seen report => report.newLines col seen) seen reports =
      (LogLine.likeness col).firsts seen (reports.flatMap ServiceReport.lines) := by
  induction reports generalizing seen with
  | nil => rfl
  | cons report reports ih =>
      rw [inTurn, ih, List.flatMap_cons, Likeness.firsts_append]
      rfl

namespace Outcome

/-- The calls of the last of some reports. -/
theorem logCalls_after (h : Outcome col t reports t' alerts) {t'' : ServiceTables}
    {alerts' : List ServiceAlert} (h' : Outcome col t' reports' t'' alerts')
    (hpositive : t.PositiveTypes) : alerts'.filterMap ServiceAlert.logCall =
      inTurn ServiceReport.lines (fun seen report => report.logCalls col seen)
        (t.lines ++ reports.flatMap ServiceReport.lines) reports' := by
  have hall := (h.trans h').logCalls hpositive
  rw [List.filterMap_append, inTurn_append, h.logCalls hpositive] at hall
  exact List.append_cancel_left hall

/-- Each identity has one row, and one new line if it was not stored before. -/
theorem lines_once (h : Outcome col t reports t' alerts) (hunique : t.UniqueLines col)
    {line : LogLine} (hline : line ∈ reports.flatMap ServiceReport.lines) :
    t'.lines.countP ((LogLine.likeness col).same line) = 1 ∧
      (inTurn ServiceReport.lines (fun seen report => report.newLines col seen) t.lines
        reports).countP ((LogLine.likeness col).same line) =
          if (LogLine.likeness col).seenIn t.lines line then 0 else 1 := by
  have hseen := Likeness.seenIn_of_mem (L := LogLine.likeness col) hline
  constructor
  · rw [h.lines]
    apply Likeness.countP_append_firsts hunique
    rw [Likeness.seenIn_append, hseen, Bool.or_true]
  · rw [inTurn_newLines, Likeness.countP_firsts, hseen]
    cases (LogLine.likeness col).seenIn t.lines line with
    | true => rfl
    | false => rfl

end Outcome

end lines

/-- Whatever replies come one after the other: a reply calls `sendLog` for each of its services
that has lines whose identities neither the tables nor an earlier line had, once, with these lines
in order. Of every identity that is reported there is one row, and one line of one call, if it was
not stored before the replies. -/
theorem log_entries_once (col : Collation) {t : ServiceTables} (hpositive : t.PositiveTypes)
    (hunique : t.UniqueLines col) {before : List Reply} {reply : Reply}
    (hok : ∀ r ∈ before ++ [reply], r.Ok) :
    ∃ m m' alerts, handleAll col t before = .ok m ∧ m.handle col reply = .ok m' ∧
      m'.alerts = m.alerts ++ alerts ∧
      alerts.filterMap ServiceAlert.logCall =
        inTurn ServiceReport.lines (fun seen report => report.logCalls col seen)
          (t.lines ++ (before.flatMap fun r => r.reports col m'.tables).flatMap ServiceReport.lines)
          (reply.reports col m'.tables) ∧
      ∀ line ∈ ((before ++ [reply]).flatMap fun r => r.reports col m'.tables).flatMap
          ServiceReport.lines,
        m'.tables.lines.countP ((LogLine.likeness col).same line) = 1 ∧
          (inTurn ServiceReport.lines (fun seen report => report.newLines col seen) t.lines
            ((before ++ [reply]).flatMap fun r => r.reports col m'.tables)).countP
              ((LogLine.likeness col).same line) =
                if (LogLine.likeness col).seenIn t.lines line then 0 else 1 := by
  obtain ⟨m, m', alerts, hm, hm', halerts, hbefore, hreply⟩ :=
    handleAll_then_outcome col hok t
  refine ⟨m, m', alerts, hm, hm', halerts, hbefore.logCalls_after hreply hpositive, ?_⟩
  intro line hline
  rw [List.flatMap_append, List.flatMap_cons, List.flatMap_nil, List.append_nil] at hline ⊢
  exact (hbefore.trans hreply).lines_once hunique hline

/-! ### Two replies that overlap -/

/-- The log of a service from a line on. -/
def logReply (fp : ℚ) (entries : List Json) : Reply :=
  replyOf fp [("db", serviceOf "web" entries [] [])]

def oldEntry : Json := entryOf "app" "Jan 1" 7 "old" "Warning"

def newEntry : Json := entryOf "app" "Jan 1" 8 "new" "Error"

theorem logReply_ok (fp : ℚ) {entries : List Json} (h : ∀ entry ∈ entries, LogOk entry) :
    (logReply fp entries).Ok := by
  apply replyOf_ok
  intro service hservice
  rw [List.mem_singleton.mp hservice]
  exact serviceOk_serviceOf "web" h (by simp) (by simp)

/-- The second reply repeats the entry of the first, and has another one twice. -/
theorem log_entries_once_overlapping : ∃ m m' alerts,
    handleAll .binary noServices [logReply 10 [oldEntry]] = .ok m ∧
      m.handle .binary (logReply 20 [oldEntry, newEntry, newEntry]) = .ok m' ∧
      m'.alerts = m.alerts ++ alerts ∧
      alerts.filterMap ServiceAlert.logCall = [(1, 1, "new\n")] := by
  have hold : LogOk oldEntry := logOk_entryOf "app" "Jan 1" "old" "Warning" (by norm_num)
  have hnew : LogOk newEntry := logOk_entryOf "app" "Jan 1" "new" "Error" (by norm_num)
  have hok : ∀ r ∈ [logReply 10 [oldEntry]] ++ [logReply 20 [oldEntry, newEntry, newEntry]],
      r.Ok := by
    intro r hr
    simp only [List.cons_append, List.nil_append, List.mem_cons, List.not_mem_nil, or_false] at hr
    rcases hr with rfl | rfl
    · exact logReply_ok 10 (by simp [hold])
    · exact logReply_ok 20 (by simp [hold, hnew])
  obtain ⟨m, m', alerts, hm, hm', halerts, -⟩ :=
    log_entries_once .binary (t := noServices) (by simp [ServiceTables.PositiveTypes, noServices])
      .nil hok
  refine ⟨m, m', alerts, hm, hm', halerts, ?_⟩
  have hfirst : ((handleAll .binary noServices [logReply 10 [oldEntry]]).toOption.map fun s =>
      s.alerts.filterMap ServiceAlert.logCall) = some [(1, 1, "old\n")] := by
    decide +kernel
  have hboth : (((handleAll .binary noServices [logReply 10 [oldEntry]]) >>= fun s =>
      s.handle .binary (logReply 20 [oldEntry, newEntry, newEntry])).toOption.map fun s =>
        s.alerts.filterMap ServiceAlert.logCall) = some [(1, 1, "old\n"), (1, 1, "new\n")] := by
    decide +kernel
  rw [hm] at hfirst hboth
  rw [ok_bind, hm'] at hboth
  simp only [Except.toOption, Option.map_some, Option.some.injEq, halerts, List.filterMap_append]
    at hfirst hboth
  rw [hfirst] at hboth
  have hcalls : [(1, 1, "old\n")] ++ alerts.filterMap ServiceAlert.logCall =
      [(1, 1, "old\n")] ++ [(1, 1, "new\n")] := hboth
  exact List.append_cancel_left hcalls

end WatchedBack
