import WatchedBack.Model.Views
import WatchedBack.Verification.Replies.History

/-! # Components and their views

After any replies the tables have one row for each component that was reported, as the last report
of it says. `s$missing` and `s$failed` read nothing else of them. -/

namespace WatchedBack

open Reports

/-! ### The last reports -/

/-- The processes that replies report, with the ids of the tables. -/
def processReports (col : Collation) (t : ServiceTables) (replies : List Reply) : List ProcessRow :=
  (replies.flatMap fun reply => reply.reports col t).flatMap ServiceReport.process

def socketReports (col : Collation) (t : ServiceTables) (replies : List Reply) : List SocketRow :=
  (replies.flatMap fun reply => reply.reports col t).flatMap ServiceReport.sockets

/-- What the last report of each process says. -/
def lastProcess (col : Collation) (rows : List ProcessRow) : List StatusRow :=
  (rows.filter fun row => (processStore col).last rows row = some row).map ProcessRow.statusRow

def lastSockets (col : Collation) (rows : List SocketRow) : List StatusRow :=
  (rows.filter fun row => (socketStore col).last rows row = some row).map SocketRow.statusRow

section latest

variable {col : Collation} {t : ServiceTables} {replies : List Reply}

/-- The services are known under the ids of their reports. -/
theorem found_reports {s : ReplyState} (h : Outcome col t
    (replies.flatMap fun reply => reply.reports col s.tables) s.tables s.alerts) {reply : Reply}
    (hreply : reply ∈ replies) {service : String × Json} (hservice : service ∈ reply.services) :
    s.tables.findService col (fullName service) =
      some (s.tables.report col reply.fp service).servId :=
  (h.found _ (List.mem_flatMap_of_mem hreply (List.mem_map_of_mem hservice))).2

/-- Whatever replies come, and whatever the tables held: they end with one row for each process and
each socket that they held or that was reported. The row says what the last report of the
component says. A row that no reply reported again is as it was. -/
theorem components_latest (col : Collation) (hok : ∀ reply ∈ replies, reply.Ok)
    (t : ServiceTables) : ∃ s, handleAll col t replies = .ok s ∧
      (∀ reply ∈ replies, ∀ service ∈ reply.services,
        s.tables.findService col (fullName service) =
          some (s.tables.report col reply.fp service).servId) ∧
      (processStore col).Latest t.process (processReports col s.tables replies) s.tables.process ∧
      (socketStore col).Latest t.sockets (socketReports col s.tables replies) s.tables.sockets := by
  obtain ⟨s, hs, houtcome⟩ := handleAll_outcome col hok t
  have h := houtcome s.tables (.refl _)
  refine ⟨s, hs, fun reply hreply service hservice => found_reports h hreply hservice, ?_, ?_⟩
  · rw [h.process]
    exact KeyedRows.latest_foldl_put _ _
  · rw [h.sockets]
    exact KeyedRows.latest_foldl_put _ _

theorem components_latest_twice : ∃ s,
    handleAll .binary noServices [wellReply 10 ["app", "db"], wellReply 20 ["db"]] = .ok s ∧
      (socketStore .binary).Latest [] (socketReports .binary s.tables
        [wellReply 10 ["app", "db"], wellReply 20 ["db"]]) s.tables.sockets := by
  have hok : ∀ reply ∈ [wellReply 10 ["app", "db"], wellReply 20 ["db"]], reply.Ok := by
    simp [wellReply_ok]
  obtain ⟨s, hs, -, -, hsockets⟩ := components_latest .binary hok noServices
  exact ⟨s, hs, hsockets⟩

theorem statusRow_set_process {row row' : ProcessRow} (h : (processStore col).same row row' = true) :
    ((processStore col).set row row').statusRow = row.statusRow := by
  have hkey : row'.servId = row.servId ∧ col.same row'.name row.name = true := of_decide_eq_true h
  simp [processStore, ProcessRow.statusRow, hkey.1]

theorem statusRow_set_socket {row row' : SocketRow} (h : (socketStore col).same row row' = true) :
    ((socketStore col).set row row').statusRow = row.statusRow := by
  have hkey : row'.servId = row.servId ∧ col.same row'.name row.name = true := of_decide_eq_true h
  simp [socketStore, SocketRow.statusRow, hkey.1]

/-- Tables that had no component have the last statuses. -/
theorem mem_lastProcess {s : ReplyState} (h : Outcome col noServices
    (replies.flatMap fun reply => reply.reports col s.tables) s.tables s.alerts) (x : StatusRow) :
    x ∈ lastProcess col (processReports col s.tables replies) ↔
      x ∈ s.tables.process.map ProcessRow.statusRow := by
  have hprocess : s.tables.process = (processReports col s.tables replies).foldl
      (processStore col).put [] := h.process
  rw [hprocess, KeyedRows.mem_map_foldl_put_nil _ fun _ _ => statusRow_set_process, lastProcess]
  simp [List.mem_map, List.mem_filter, and_assoc]

theorem mem_lastSockets {s : ReplyState} (h : Outcome col noServices
    (replies.flatMap fun reply => reply.reports col s.tables) s.tables s.alerts) (x : StatusRow) :
    x ∈ lastSockets col (socketReports col s.tables replies) ↔
      x ∈ s.tables.sockets.map SocketRow.statusRow := by
  have hsockets : s.tables.sockets = (socketReports col s.tables replies).foldl
      (socketStore col).put [] := h.sockets
  rw [hsockets, KeyedRows.mem_map_foldl_put_nil _ fun _ _ => statusRow_set_socket, lastSockets]
  simp [List.mem_map, List.mem_filter, and_assoc]

end latest

/-! ### The oldest report of a status -/

namespace StatusRow

variable {col : StatusCollation} {rows rows' : List StatusRow} {x y : StatusRow}

theorem likeness_iff : (likeness col).same x y = true ↔
    x.servId = y.servId ∧ col.same x.status y.status = true := decide_eq_true_iff

theorem distinct_iff : (distinct col).same x y = true ↔
    x.timestamp = y.timestamp ∧ x.servId = y.servId ∧ col.same x.status y.status = true :=
  decide_eq_true_iff

variable (col) in
/-- The time is that of the oldest row of the service and the status. -/
structure IsOldest (rows : List StatusRow) (y : StatusRow) : Prop where
  attained : ∃ x ∈ rows, (likeness col).same y x = true ∧ x.timestamp = y.timestamp
  least : ∀ x ∈ rows, (likeness col).same y x = true → y.timestamp ≤ x.timestamp

theorem foldl_min_spec (xs : List ℚ) (a : ℚ) :
    (xs.foldl min a = a ∨ xs.foldl min a ∈ xs) ∧ xs.foldl min a ≤ a ∧
      ∀ x ∈ xs, xs.foldl min a ≤ x := by
  induction xs generalizing a with
  | nil => simp
  | cons x xs ih =>
      obtain ⟨hmem, hle, hall⟩ := ih (min a x)
      rw [List.foldl_cons]
      refine ⟨?_, hle.trans (min_le_left a x), ?_⟩
      · rcases hmem with hmem | hmem
        · rcases min_choice a x with hmin | hmin
          · exact Or.inl (hmem.trans hmin)
          · exact Or.inr (List.mem_cons.mpr (Or.inl (hmem.trans hmin)))
        · exact Or.inr (List.mem_cons_of_mem x hmem)
      · intro z hz
        rcases List.mem_cons.mp hz with rfl | hz
        · exact hle.trans (min_le_right a z)
        · exact hall z hz

/-- The oldest row of each group. -/
theorem isOldest_of_mem (h : y ∈ oldest col rows) : IsOldest col rows y := by
  obtain ⟨x, hx, rfl⟩ := List.mem_map.mp h
  have hxmem : x ∈ rows := (Likeness.mem_of_mem_firsts hx).1
  obtain ⟨hmem, hle, hall⟩ := foldl_min_spec
    ((rows.filter ((likeness col).same x)).map timestamp) x.timestamp
  have hgroup {z : StatusRow} : (likeness col).same { x with
      timestamp := ((rows.filter ((likeness col).same x)).map timestamp).foldl min x.timestamp } z =
        (likeness col).same x z := rfl
  constructor
  · rcases hmem with hmem | hmem
    · exact ⟨x, hxmem, hgroup.trans ((likeness col).refl x), hmem.symm⟩
    · obtain ⟨z, hz, htime⟩ := List.mem_map.mp hmem
      obtain ⟨hz, hsame⟩ := List.mem_filter.mp hz
      exact ⟨z, hz, hgroup.trans hsame, htime⟩
  · intro z hz hsame
    rw [hgroup] at hsame
    exact hall _ (List.mem_map_of_mem (List.mem_filter.mpr ⟨hz, hsame⟩))

variable (col) in
theorem exists_mem_oldest (h : x ∈ rows) : ∃ y ∈ oldest col rows, (likeness col).same x y = true := by
  have hseen : (likeness col).seenIn ((likeness col).firsts [] rows) x = true := by
    rw [Likeness.seenIn_firsts]
    exact Likeness.seenIn_of_mem h
  obtain ⟨z, hz, hsame⟩ := Likeness.seenIn_iff.mp hseen
  exact ⟨_, List.mem_map_of_mem hz, hsame⟩

theorem seenIn_oldest : (distinct col).seenIn (oldest col rows) y = true ↔ IsOldest col rows y := by
  constructor
  · intro h
    obtain ⟨z, hz, hsame⟩ := Likeness.seenIn_iff.mp h
    obtain ⟨htime, hid, hstatus⟩ := distinct_iff.mp hsame
    obtain ⟨hattained, hleast⟩ := isOldest_of_mem hz
    have hlike : (likeness col).same y z = true := likeness_iff.mpr ⟨hid, hstatus⟩
    constructor
    · obtain ⟨x, hx, hzx, hxtime⟩ := hattained
      exact ⟨x, hx, (likeness col).trans hlike hzx, hxtime.trans htime.symm⟩
    · intro x hx hyx
      rw [htime]
      exact hleast x hx ((likeness col).trans ((likeness col).symm hlike) hyx)
  · intro h
    obtain ⟨x, hx, hyx, htime⟩ := h.attained
    obtain ⟨z, hz, hxz⟩ := exists_mem_oldest col hx
    obtain ⟨hattained, hleast⟩ := isOldest_of_mem hz
    have hyz : (likeness col).same y z = true := (likeness col).trans hyx hxz
    obtain ⟨w, hw, hzw, hwtime⟩ := hattained
    have hle : y.timestamp ≤ z.timestamp := by
      rw [← hwtime]
      exact h.least w hw ((likeness col).trans hyz hzw)
    have hge : z.timestamp ≤ y.timestamp := by
      rw [← htime]
      exact hleast x hx ((likeness col).symm hxz)
    obtain ⟨hid, hstatus⟩ := likeness_iff.mp hyz
    exact Likeness.seenIn_iff.mpr ⟨z, hz, distinct_iff.mpr ⟨le_antisymm hle hge, hid, hstatus⟩⟩

theorem seenIn_union : (distinct col).seenIn (union col rows rows') y =
    ((distinct col).seenIn rows y || (distinct col).seenIn rows' y) := by
  rw [union, Likeness.seenIn_firsts, Likeness.seenIn_append]

end StatusRow

/-! ### Missing services -/

/-- A service in `s$missing`: the longest delay, and the number of statuses that are late. -/
def overdueRow (col : StatusCollation) (now : ℕ) (rows : List StatusRow) (s : ServiceRow) :
    MissingRow :=
  let late := rows.filter fun x => x.servId = s.id ∧ x.late now
  { id := s.id
    name := s.name
    hostId := s.hostId
    lateSec := (late.map fun x => lateSec now x.timestamp).foldl max lateLimit
    cntStat := ((ServiceTables.statuses col).firsts [] (late.map StatusRow.status)).length }

/-- The services with a row that is more than a quarter of an hour old. -/
def overdue (col : StatusCollation) (now : ℕ) (services : List ServiceRow)
    (rows : List StatusRow) : List MissingRow :=
  (services.filter fun s => rows.any fun x => x.servId = s.id ∧ x.late now).map
    (overdueRow col now rows)

section missing

variable {col : StatusCollation} {now : ℕ} {t : ServiceTables} {rows ys : List StatusRow}
  {x y : StatusRow} {s : ServiceRow}

/-- The rows of a table of components. -/
def ServiceTables.HasStatuses (t : ServiceTables) (rows : List StatusRow) : Prop :=
  ∀ x, x ∈ rows ↔ x ∈ t.process.map ProcessRow.statusRow ∨ x ∈ t.sockets.map SocketRow.statusRow

/-- Every row stands for some of the others, and every other one has one that is as old. -/
structure StandsFor (col : StatusCollation) (ys rows : List StatusRow) : Prop where
  among : ∀ y ∈ ys, ∃ x ∈ rows, (StatusRow.likeness col).same y x = true ∧
    x.timestamp = y.timestamp
  covers : ∀ x ∈ rows, ∃ y ∈ ys, (StatusRow.likeness col).same x y = true ∧
    y.timestamp ≤ x.timestamp

theorem standsFor_union (col : StatusCollation) (h : t.HasStatuses rows) :
    StandsFor col (StatusRow.union col (StatusRow.oldest col (t.sockets.map SocketRow.statusRow))
      (StatusRow.oldest col (t.process.map ProcessRow.statusRow))) rows := by
  constructor
  · intro y hy
    have hmem := (Likeness.mem_of_mem_firsts hy).1
    rcases List.mem_append.mp hmem with hy | hy
    · obtain ⟨x, hx, hsame⟩ := (StatusRow.isOldest_of_mem hy).attained
      exact ⟨x, (h x).mpr (Or.inr hx), hsame⟩
    · obtain ⟨x, hx, hsame⟩ := (StatusRow.isOldest_of_mem hy).attained
      exact ⟨x, (h x).mpr (Or.inl hx), hsame⟩
  · intro x hx
    have hold : ∃ y, (y ∈ StatusRow.oldest col (t.sockets.map SocketRow.statusRow) ∨
        y ∈ StatusRow.oldest col (t.process.map ProcessRow.statusRow)) ∧
          (StatusRow.likeness col).same x y = true ∧ y.timestamp ≤ x.timestamp := by
      rcases (h x).mp hx with hx | hx
      · obtain ⟨y, hy, hsame⟩ := StatusRow.exists_mem_oldest col hx
        exact ⟨y, Or.inr hy, hsame,
          (StatusRow.isOldest_of_mem hy).least x hx ((StatusRow.likeness col).symm hsame)⟩
      · obtain ⟨y, hy, hsame⟩ := StatusRow.exists_mem_oldest col hx
        exact ⟨y, Or.inl hy, hsame,
          (StatusRow.isOldest_of_mem hy).least x hx ((StatusRow.likeness col).symm hsame)⟩
    obtain ⟨y, hy, hsame, hle⟩ := hold
    have hseen : (StatusRow.distinct col).seenIn (StatusRow.union col
        (StatusRow.oldest col (t.sockets.map SocketRow.statusRow))
          (StatusRow.oldest col (t.process.map ProcessRow.statusRow))) y = true := by
      rw [StatusRow.union, Likeness.seenIn_firsts]
      exact Likeness.seenIn_of_mem (List.mem_append.mpr hy)
    obtain ⟨z, hz, hyz⟩ := Likeness.seenIn_iff.mp hseen
    obtain ⟨htime, hid, hstatus⟩ := StatusRow.distinct_iff.mp hyz
    refine ⟨z, hz, (StatusRow.likeness col).trans hsame (StatusRow.likeness_iff.mpr ⟨hid, hstatus⟩),
      ?_⟩
    rw [← htime]
    exact hle

theorem late_iff : x.late now = true ↔ lateLimit < lateSec now x.timestamp := decide_eq_true_iff

theorem lateSec_le {a b : ℚ} (h : a ≤ b) : lateSec now b ≤ lateSec now a := by
  rw [lateSec, lateSec]
  linarith

/-- The late rows of a service stand for its late ones. -/
theorem StandsFor.late (h : StandsFor col ys rows) (now servId : ℕ) :
    StandsFor col (ys.filter fun y => y.servId = servId ∧ y.late now)
      (rows.filter fun x => x.servId = servId ∧ x.late now) := by
  constructor
  · intro y hy
    obtain ⟨hy, hlate⟩ := List.mem_filter.mp hy
    obtain ⟨hid, hlate⟩ := of_decide_eq_true hlate
    obtain ⟨x, hx, hsame, htime⟩ := h.among y hy
    refine ⟨x, List.mem_filter.mpr ⟨hx, decide_eq_true ⟨?_, ?_⟩⟩, hsame, htime⟩
    · rw [← (StatusRow.likeness_iff.mp hsame).1, hid]
    · rw [late_iff] at hlate ⊢
      rwa [htime]
  · intro x hx
    obtain ⟨hx, hlate⟩ := List.mem_filter.mp hx
    obtain ⟨hid, hlate⟩ := of_decide_eq_true hlate
    obtain ⟨y, hy, hsame, hle⟩ := h.covers x hx
    refine ⟨y, List.mem_filter.mpr ⟨hy, decide_eq_true ⟨?_, ?_⟩⟩, hsame, hle⟩
    · rw [← (StatusRow.likeness_iff.mp hsame).1, hid]
    · rw [late_iff] at hlate ⊢
      exact hlate.trans_le (lateSec_le hle)

theorem foldl_max_spec (xs : List ℚ) (a : ℚ) :
    (xs.foldl max a = a ∨ xs.foldl max a ∈ xs) ∧ a ≤ xs.foldl max a ∧
      ∀ x ∈ xs, x ≤ xs.foldl max a := by
  induction xs generalizing a with
  | nil => simp
  | cons x xs ih =>
      obtain ⟨hmem, hle, hall⟩ := ih (max a x)
      rw [List.foldl_cons]
      refine ⟨?_, (le_max_left a x).trans hle, ?_⟩
      · rcases hmem with hmem | hmem
        · rcases max_choice a x with hmax | hmax
          · exact Or.inl (hmem.trans hmax)
          · exact Or.inr (List.mem_cons.mpr (Or.inl (hmem.trans hmax)))
        · exact Or.inr (List.mem_cons_of_mem x hmem)
      · intro z hz
        rcases List.mem_cons.mp hz with rfl | hz
        · exact (le_max_right a z).trans hle
        · exact hall z hz

/-- The longest delay, from any row's on. -/
theorem StandsFor.lateSec_eq (h : StandsFor col ys rows) (now : ℕ) (hy : y ∈ ys)
    (hlate : ∀ x ∈ rows, x.late now = true) :
    (ys.map fun y => lateSec now y.timestamp).foldl max (lateSec now y.timestamp) =
      (rows.map fun x => lateSec now x.timestamp).foldl max lateLimit := by
  obtain ⟨hmem, hge, hall⟩ :=
    foldl_max_spec (ys.map fun y => lateSec now y.timestamp) (lateSec now y.timestamp)
  obtain ⟨hmem', -, hall'⟩ := foldl_max_spec (rows.map fun x => lateSec now x.timestamp) lateLimit
  have hle {y : StatusRow} (hy : y ∈ ys) : lateSec now y.timestamp ≤
      (rows.map fun x => lateSec now x.timestamp).foldl max lateLimit := by
    obtain ⟨x, hx, -, htime⟩ := h.among y hy
    rw [← htime]
    exact hall' _ (List.mem_map_of_mem hx)
  apply le_antisymm
  · rcases hmem with hmem | hmem
    · rw [hmem]
      exact hle hy
    · obtain ⟨z, hz, heq⟩ := List.mem_map.mp hmem
      rw [← heq]
      exact hle hz
  · rcases hmem' with hmem' | hmem'
    · -- the row is late
      obtain ⟨x, hx, -, htime⟩ := h.among y hy
      have hlimit := late_iff.mp (hlate x hx)
      rw [htime] at hlimit
      rw [hmem']
      exact hlimit.le.trans hge
    · obtain ⟨x, hx, heq⟩ := List.mem_map.mp hmem'
      obtain ⟨z, hz, -, hold⟩ := h.covers x hx
      rw [← heq]
      exact (lateSec_le hold).trans (hall _ (List.mem_map_of_mem hz))

theorem StandsFor.statuses_eq (h : StandsFor col ys rows) :
    ((ServiceTables.statuses col).firsts [] (ys.map StatusRow.status)).length =
      ((ServiceTables.statuses col).firsts [] (rows.map StatusRow.status)).length := by
  apply Likeness.length_firsts_congr
  intro status
  rw [Bool.eq_iff_iff, Likeness.seenIn_iff, Likeness.seenIn_iff]
  constructor
  · rintro ⟨_, hmem, hsame⟩
    obtain ⟨y, hy, rfl⟩ := List.mem_map.mp hmem
    obtain ⟨x, hx, hyx, -⟩ := h.among y hy
    exact ⟨_, List.mem_map_of_mem hx, col.trans hsame (StatusRow.likeness_iff.mp hyx).2⟩
  · rintro ⟨_, hmem, hsame⟩
    obtain ⟨x, hx, rfl⟩ := List.mem_map.mp hmem
    obtain ⟨y, hy, hxy, -⟩ := h.covers x hx
    exact ⟨_, List.mem_map_of_mem hy, col.trans hsame (StatusRow.likeness_iff.mp hxy).2⟩

theorem mem_missingJoin {p : StatusRow × ServiceRow} : p ∈ t.missingJoin col now ↔
    p.1 ∈ StatusRow.union col (StatusRow.oldest col (t.sockets.map SocketRow.statusRow))
      (StatusRow.oldest col (t.process.map ProcessRow.statusRow)) ∧
    p.2 ∈ t.services ∧ p.1.servId = p.2.id ∧ p.1.late now = true := by
  cases p
  simp [ServiceTables.missingJoin, List.mem_flatMap, List.mem_map, List.mem_filter]

/-- The group of a service in the join. -/
theorem mem_group_missingJoin {p : StatusRow × ServiceRow} (hp : p ∈ t.missingJoin col now) :
    y ∈ ((t.missingJoin col now).filter ((ServiceTables.missingLikeness col).same p)).map Prod.fst ↔
      y ∈ (StatusRow.union col (StatusRow.oldest col (t.sockets.map SocketRow.statusRow))
        (StatusRow.oldest col (t.process.map ProcessRow.statusRow))).filter
          fun y => y.servId = p.2.id ∧ y.late now := by
  obtain ⟨-, hs, hid, -⟩ := mem_missingJoin.mp hp
  rw [List.mem_filter, List.mem_map]
  constructor
  · rintro ⟨q, hq, rfl⟩
    obtain ⟨hq, hsame⟩ := List.mem_filter.mp hq
    obtain ⟨hmem, -, -, hlate⟩ := mem_missingJoin.mp hq
    have hgroup : p.1.servId = q.1.servId ∧ col.same p.2.name q.2.name = true :=
      of_decide_eq_true hsame
    exact ⟨hmem, decide_eq_true ⟨hgroup.1.symm.trans hid, hlate⟩⟩
  · rintro ⟨hmem, hkey⟩
    obtain ⟨hyid, hlate⟩ := of_decide_eq_true hkey
    refine ⟨(y, p.2), List.mem_filter.mpr ⟨mem_missingJoin.mpr ⟨hmem, hs, hyid, hlate⟩, ?_⟩, rfl⟩
    exact decide_eq_true ⟨hid.trans hyid.symm, col.refl _⟩

theorem StandsFor.congr {ys' : List StatusRow} (h : StandsFor col ys rows)
    (hmem : ∀ y, y ∈ ys' ↔ y ∈ ys) : StandsFor col ys' rows := by
  refine ⟨fun y hy => h.among y ((hmem y).mp hy), fun x hx => ?_⟩
  obtain ⟨y, hy, hsame⟩ := h.covers x hx
  exact ⟨y, (hmem y).mpr hy, hsame⟩

/-- Each group of the view as its service and the rows have it. -/
theorem sMissing_eq (h : t.HasStatuses rows) : t.sMissing col now =
    (((ServiceTables.missingLikeness col).firsts [] (t.missingJoin col now)).map Prod.snd).map
      (overdueRow col now rows) := by
  rw [ServiceTables.sMissing, List.map_map]
  apply List.map_congr_left
  intro p hp
  have hp : p ∈ t.missingJoin col now := (Likeness.mem_of_mem_firsts hp).1
  obtain ⟨hmem, -, hid, hlate⟩ := mem_missingJoin.mp hp
  have hstands := ((standsFor_union col h).late now p.2.id).congr
    fun y => mem_group_missingJoin hp
  have hself : p.1 ∈ ((t.missingJoin col now).filter
      ((ServiceTables.missingLikeness col).same p)).map Prod.fst := by
    rw [mem_group_missingJoin hp]
    exact List.mem_filter.mpr ⟨hmem, decide_eq_true ⟨hid, hlate⟩⟩
  have hsec := hstands.lateSec_eq now hself fun x hx =>
    (of_decide_eq_true (List.mem_filter.mp hx).2).2
  have hstatuses := hstands.statuses_eq
  rw [List.map_map] at hsec hstatuses
  rw [Function.comp_apply, overdueRow, MissingRow.mk.injEq]
  exact ⟨hid, rfl, rfl, hsec, hstatuses⟩

/-- The services of the groups. -/
theorem mem_missing_services (hkeyed : t.Keyed) (h : t.HasStatuses rows) :
    s ∈ ((ServiceTables.missingLikeness col).firsts [] (t.missingJoin col now)).map Prod.snd ↔
      s ∈ t.services.filter fun s => rows.any fun x => x.servId = s.id ∧ x.late now := by
  have hstands := (standsFor_union col h).late now s.id
  rw [List.mem_filter, List.any_eq_true]
  constructor
  · intro hs
    obtain ⟨p, hp, rfl⟩ := List.mem_map.mp hs
    obtain ⟨hmem, hs, hkey⟩ := mem_missingJoin.mp (Likeness.mem_of_mem_firsts hp).1
    obtain ⟨x, hx, -⟩ := hstands.among p.1 (List.mem_filter.mpr ⟨hmem, decide_eq_true hkey⟩)
    exact ⟨hs, x, List.mem_filter.mp hx⟩
  · rintro ⟨hs, x, hx⟩
    obtain ⟨y, hy, -⟩ := hstands.covers x (List.mem_filter.mpr hx)
    obtain ⟨hy, hkey⟩ := List.mem_filter.mp hy
    have hjoin : (y, s) ∈ t.missingJoin col now :=
      mem_missingJoin.mpr ⟨hy, hs, of_decide_eq_true hkey⟩
    have hseen : (ServiceTables.missingLikeness col).seenIn
        ((ServiceTables.missingLikeness col).firsts [] (t.missingJoin col now)) (y, s) = true := by
      rw [Likeness.seenIn_firsts]
      exact Likeness.seenIn_of_mem hjoin
    obtain ⟨q, hq, hsame⟩ := Likeness.seenIn_iff.mp hseen
    have hgroup : y.servId = q.1.servId ∧ col.same s.name q.2.name = true :=
      of_decide_eq_true hsame
    obtain ⟨-, hqs, hqid, -⟩ := mem_missingJoin.mp (Likeness.mem_of_mem_firsts hq).1
    have hid : q.2.id = s.id := by
      rw [← hqid, ← hgroup.1]
      exact (of_decide_eq_true hkey).1
    exact List.mem_map.mpr ⟨q, hq, List.inj_on_of_nodup_map hkeyed.services hqs hs hid⟩

/-- `s$missing` reads the statuses of the rows only. -/
theorem sMissing_perm (hkeyed : t.Keyed) (h : t.HasStatuses rows) :
    (t.sMissing col now).Perm (overdue col now t.services rows) := by
  rw [sMissing_eq h, overdue]
  apply List.Perm.map
  have hgroups : (((ServiceTables.missingLikeness col).firsts []
      (t.missingJoin col now)).map Prod.snd).Nodup := by
    rw [List.Nodup, List.pairwise_map]
    refine (Likeness.pairwise_firsts [] _).imp_of_mem fun {p q} hp hq hdiff heq => ?_
    obtain ⟨-, -, hpid, -⟩ := mem_missingJoin.mp (Likeness.mem_of_mem_firsts hp).1
    obtain ⟨-, -, hqid, -⟩ := mem_missingJoin.mp (Likeness.mem_of_mem_firsts hq).1
    have hsame : (ServiceTables.missingLikeness col).same p q = true := by
      apply decide_eq_true
      rw [hpid, hqid, heq]
      exact ⟨rfl, col.refl _⟩
    rw [hsame] at hdiff
    cases hdiff
  rw [List.perm_ext_iff_of_nodup hgroups ((hkeyed.services.of_map _).filter _)]
  intro s
  exact mem_missing_services hkeyed h

/-- Replies to tables that had no service, at any later time: `s$missing` has the services with a
component whose last report is more than a quarter of an hour ago, each of them once, with the
longest of these delays and the number of statuses of its late components. -/
theorem missing_services_exact (col : StatusCollation) {replies : List Reply}
    (hok : ∀ reply ∈ replies, reply.Ok) (now : ℕ) :
    ∃ s, handleAll col.toCollation noServices replies = .ok s ∧
      (∀ reply ∈ replies, ∀ service ∈ reply.services,
        s.tables.findService col.toCollation (fullName service) =
          some (s.tables.report col.toCollation reply.fp service).servId) ∧
      (s.tables.sMissing col now).Perm (overdue col now s.tables.services
        (lastProcess col.toCollation (processReports col.toCollation s.tables replies) ++
          lastSockets col.toCollation (socketReports col.toCollation s.tables replies))) := by
  obtain ⟨s, hs, houtcome⟩ := handleAll_outcome col.toCollation hok noServices
  have h := houtcome s.tables (.refl _)
  refine ⟨s, hs, fun reply hreply service hservice => found_reports h hreply hservice, ?_⟩
  apply sMissing_perm (h.keyed ⟨.nil, .nil⟩)
  intro x
  rw [List.mem_append, mem_lastProcess h, mem_lastSockets h]

theorem missing_services_exact_oneOfTwo : ∃ s,
    handleAll .binary noServices [wellReply 10 ["app", "db"], wellReply 2000000 ["db"]] = .ok s ∧
      (s.tables.sMissing .binary 2000).Perm (overdue .binary 2000 s.tables.services
        (lastProcess .binary (processReports .binary s.tables
            [wellReply 10 ["app", "db"], wellReply 2000000 ["db"]]) ++
          lastSockets .binary (socketReports .binary s.tables
            [wellReply 10 ["app", "db"], wellReply 2000000 ["db"]]))) := by
  have hok : ∀ reply ∈ [wellReply 10 ["app", "db"], wellReply 2000000 ["db"]], reply.Ok := by
    simp [wellReply_ok]
  obtain ⟨s, hs, -, hperm⟩ := missing_services_exact .binary hok 2000
  exact ⟨s, hs, hperm⟩

end missing

/-! ### Failed services -/

section failed

variable {col : StatusCollation} {now : ℕ} {t : ServiceTables} {rows rows' : List StatusRow}
  {x y : StatusRow}

/-- The row is late, or its status is not like `ok%`. -/
def StatusRow.failed (col : StatusCollation) (now : ℕ) (row : StatusRow) : Bool :=
  row.late now || !col.likeOk row.status

theorem StatusRow.IsOldest.congr (h : StatusRow.IsOldest col rows y)
    (hmem : ∀ x, x ∈ rows' ↔ x ∈ rows) : StatusRow.IsOldest col rows' y := by
  constructor
  · obtain ⟨x, hx, hsame⟩ := h.attained
    exact ⟨x, (hmem x).mpr hx, hsame⟩
  · intro x hx hsame
    exact h.least x ((hmem x).mp hx) hsame

theorem isOldest_filter_iff (hmem : ∀ x, x ∈ rows' ↔ x ∈ rows) (p : StatusRow → Bool) :
    StatusRow.IsOldest col (rows'.filter p) y ↔ StatusRow.IsOldest col (rows.filter p) y := by
  have hfilter (x : StatusRow) : x ∈ rows'.filter p ↔ x ∈ rows.filter p := by
    rw [List.mem_filter, List.mem_filter, hmem]
  exact ⟨fun h => h.congr fun x => (hfilter x).symm, fun h => h.congr hfilter⟩

theorem seenIn_sFailed : (StatusRow.distinct col).seenIn (t.sFailed col now) y = true ↔
    StatusRow.IsOldest col ((t.sockets.map SocketRow.statusRow).filter (StatusRow.failed col now)) y ∨
      StatusRow.IsOldest col
        ((t.process.map ProcessRow.statusRow).filter (StatusRow.failed col now)) y := by
  rw [ServiceTables.sFailed, StatusRow.seenIn_union, Bool.or_eq_true, StatusRow.seenIn_oldest,
    StatusRow.seenIn_oldest]
  rfl

/-- A service has a row in the view if a row of it has failed. -/
theorem exists_isOldest_iff {servId : ℕ} :
    (∃ y, y.servId = servId ∧ StatusRow.IsOldest col rows y) ↔ ∃ x ∈ rows, x.servId = servId := by
  constructor
  · rintro ⟨y, rfl, h⟩
    obtain ⟨x, hx, hsame, -⟩ := h.attained
    exact ⟨x, hx, (StatusRow.likeness_iff.mp hsame).1.symm⟩
  · rintro ⟨x, hx, rfl⟩
    obtain ⟨y, hy, hsame⟩ := StatusRow.exists_mem_oldest col hx
    exact ⟨y, (StatusRow.likeness_iff.mp hsame).1.symm, StatusRow.isOldest_of_mem hy⟩

theorem mem_sFailed_servId {servId : ℕ} : (∃ y ∈ t.sFailed col now, y.servId = servId) ↔
    ∃ x, (x ∈ t.process.map ProcessRow.statusRow ∨ x ∈ t.sockets.map SocketRow.statusRow) ∧
      x.servId = servId ∧ x.failed col now = true := by
  have hview : (∃ y ∈ t.sFailed col now, y.servId = servId) ↔
      ∃ y, y.servId = servId ∧ (StatusRow.distinct col).seenIn (t.sFailed col now) y = true := by
    constructor
    · rintro ⟨y, hy, hid⟩
      exact ⟨y, hid, Likeness.seenIn_of_mem hy⟩
    · rintro ⟨y, hid, hy⟩
      obtain ⟨z, hz, hsame⟩ := Likeness.seenIn_iff.mp hy
      exact ⟨z, hz, (StatusRow.distinct_iff.mp hsame).2.1.symm.trans hid⟩
  rw [hview]
  simp only [seenIn_sFailed, and_or_left, exists_or, exists_isOldest_iff, List.mem_filter,
    or_and_right]
  rw [or_comm]
  refine or_congr (exists_congr fun x => ?_) (exists_congr fun x => ?_)
  · rw [and_assoc, and_comm (a := x.failed col now = true)]
  · rw [and_assoc, and_comm (a := x.failed col now = true)]

/-- Replies to tables that had no service, at any later time: `s$failed` has, for the sockets and
for the processes, each service and status that the last report of one of these components gave,
if this report is late or the status not like `ok%`, with the oldest of these times. Without its
time and status, that is every service with such a component. -/
theorem failed_services_exact (col : StatusCollation) {replies : List Reply}
    (hok : ∀ reply ∈ replies, reply.Ok) (now : ℕ) :
    ∃ s, handleAll col.toCollation noServices replies = .ok s ∧
      let process := lastProcess col.toCollation (processReports col.toCollation s.tables replies)
      let sockets := lastSockets col.toCollation (socketReports col.toCollation s.tables replies)
      (∀ reply ∈ replies, ∀ service ∈ reply.services,
        s.tables.findService col.toCollation (fullName service) =
          some (s.tables.report col.toCollation reply.fp service).servId) ∧
      (s.tables.sFailed col now).Pairwise (fun x y => (StatusRow.distinct col).same x y = false) ∧
      (∀ y, (StatusRow.distinct col).seenIn (s.tables.sFailed col now) y = true ↔
        StatusRow.IsOldest col (sockets.filter (StatusRow.failed col now)) y ∨
          StatusRow.IsOldest col (process.filter (StatusRow.failed col now)) y) ∧
      ∀ servId, (∃ y ∈ s.tables.sFailed col now, y.servId = servId) ↔
        ∃ x ∈ process ++ sockets, x.servId = servId ∧ x.failed col now = true := by
  obtain ⟨s, hs, houtcome⟩ := handleAll_outcome col.toCollation hok noServices
  have h := houtcome s.tables (.refl _)
  refine ⟨s, hs, fun reply hreply service hservice => found_reports h hreply hservice,
    Likeness.pairwise_firsts [] _, fun y => ?_, fun servId => ?_⟩
  · rw [seenIn_sFailed, isOldest_filter_iff fun x => mem_lastSockets h x,
      isOldest_filter_iff fun x => mem_lastProcess h x]
  · rw [mem_sFailed_servId]
    simp only [List.mem_append, mem_lastProcess h, mem_lastSockets h]

theorem failed_services_exact_late : ∃ s,
    handleAll .binary noServices [wellReply 10 ["app", "db"], wellReply 2000000 ["db"]] = .ok s ∧
      ∀ servId, (∃ y ∈ s.tables.sFailed .binary 2000, y.servId = servId) ↔
        ∃ x ∈ lastProcess .binary (processReports .binary s.tables
            [wellReply 10 ["app", "db"], wellReply 2000000 ["db"]]) ++
          lastSockets .binary (socketReports .binary s.tables
            [wellReply 10 ["app", "db"], wellReply 2000000 ["db"]]),
          x.servId = servId ∧ x.failed .binary 2000 = true := by
  have hok : ∀ reply ∈ [wellReply 10 ["app", "db"], wellReply 2000000 ["db"]], reply.Ok := by
    simp [wellReply_ok]
  obtain ⟨s, hs, -, -, -, hservices⟩ := failed_services_exact .binary hok 2000
  exact ⟨s, hs, hservices⟩

end failed

end WatchedBack
