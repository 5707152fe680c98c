import WatchedBack.Library.Fallible
import WatchedBack.Model.Polls

/-! # From when the next reply is asked for

`since` moves as soon as a reply is there, and the connection is asked for after that. A reply
without a connection is not asked for again. -/

namespace WatchedBack

open Fallible

/-- The timestamp of a reply. -/
def Json.timestamp (data : Json) : Except Fault ℚ := data.member "timestamp" >>= Json.asDouble

section poll

variable {col : Collation} {s s' : PollState} {poll : Poll}

/-- The loops over the services, the known hosts and the resource clients. -/
def PollState.handed (col : Collation) (s : PollState) (poll : Poll) (data : Json) :
    Except Fault (Round × List RessourceClient × ParseState) := do
  let (r, hosts) ← (← data.member "services").entries.foldlM
    (collectService col poll.carried poll.fp) (⟨s.tables, 0, []⟩, [])
  let r := collectMissing poll.carried poll.fp hosts r
  let (ressources, p) ← s.agent.ressources.foldlM (collectRessource poll.answers data)
    ([], .start ∅ s.db)
  return (r, ressources, p)

/-- What a call does: it changes nothing, it moves `since` and hands the reply on, or it only moves
`since`. -/
theorem collect_cases (h : s.collect col poll = .ok s') :
    (poll.reply = none ∧ s' = s) ∨
    (∃ data since r ressources p, poll.reply = some data ∧ poll.grabbed = true ∧
      data.timestamp = .ok since ∧ s.handed col poll data = .ok (r, ressources, p) ∧
      s' = ⟨⟨since, ressources⟩, r.tables, p.db, s.processed ++ [(trunc s.agent.since, since)]⟩) ∨
    (∃ data since, poll.reply = some data ∧ poll.grabbed = false ∧ data.timestamp = .ok since ∧
      s' = { s with agent := { s.agent with since := since } }) := by
  obtain ⟨res, hres, h⟩ := bind_eq_ok.mp h
  cases h
  cases hreply : poll.reply with
  | none =>
      rw [hreply] at hres
      cases hres
      apply Or.inl
      simp [Poll.processes, hreply, ParseState.start]
  | some data =>
      rw [hreply] at hres
      obtain ⟨v, hv, hres⟩ := bind_eq_ok.mp hres
      obtain ⟨since, hsince, hres⟩ := bind_eq_ok.mp hres
      have htime : data.timestamp = .ok since := bind_eq_ok.mpr ⟨v, hv, hsince⟩
      apply Or.inr
      cases hgrabbed : poll.grabbed with
      | false =>
          rw [hgrabbed] at hres
          cases hres
          refine Or.inr ⟨data, since, rfl, rfl, htime, ?_⟩
          simp [Poll.processes, hreply, hgrabbed, ParseState.start]
      | true =>
          rw [hgrabbed] at hres
          obtain ⟨services, hservices, hres⟩ := bind_eq_ok.mp hres
          obtain ⟨⟨r, hosts⟩, hloop, hres⟩ := bind_eq_ok.mp hres
          obtain ⟨⟨ressources, p⟩, hparse, hres⟩ := bind_eq_ok.mp hres
          cases hres
          refine Or.inl ⟨data, since, collectMissing poll.carried poll.fp hosts r, ressources, p, rfl,
            rfl, htime, ?_, ?_⟩
          · exact bind_eq_ok.mpr ⟨services, hservices, bind_eq_ok.mpr ⟨(r, hosts), hloop,
              bind_eq_ok.mpr ⟨(ressources, p), hparse, rfl⟩⟩⟩
          · simp [Poll.processes, hreply, hgrabbed]

/-- A call without a connection returns early, with the timestamp of the reply. -/
theorem collect_ungrabbed {data : Json} {since : ℚ} (hreply : poll.reply = some data)
    (hgrabbed : poll.grabbed = false) (htime : data.timestamp = .ok since) :
    s.collect col poll = .ok { s with agent := { s.agent with since := since } } := by
  obtain ⟨v, hv, hsince⟩ := bind_eq_ok.mp htime
  apply bind_eq_ok.mpr
  refine ⟨⟨{ s.agent with since := since }, ⟨s.tables, 0, []⟩, .start ∅ s.db⟩, ?_, ?_⟩
  · rw [hreply]
    exact bind_eq_ok.mpr ⟨v, hv, bind_eq_ok.mpr ⟨since, hsince, by rw [hgrabbed]; rfl⟩⟩
  · simp [Poll.processes, hreply, hgrabbed, ParseState.start]

/-- `since` moves to the timestamp of a reply, and the reply has been handed on. -/
def MovesWithReply (col : Collation) (s : PollState) (poll : Poll) (s' : PollState) : Prop :=
  s'.agent.since ≠ s.agent.since → ∃ data r ressources p, poll.reply = some data ∧
    data.timestamp = .ok s'.agent.since ∧ s.handed col poll data = .ok (r, ressources, p) ∧
    s' = ⟨⟨s'.agent.since, ressources⟩, r.tables, p.db,
      s.processed ++ [(trunc s.agent.since, s'.agent.since)]⟩

/-- The replies that were handed on leave no gap. -/
def PollState.Covered (s : PollState) : Prop :=
  Set.Ico 0 s.agent.since ⊆ ⋃ span ∈ s.processed, Set.Icc (span.1 : ℚ) span.2

/-- The reply is handed on, or has the timestamp of the one before. -/
def PollState.Keeps (s : PollState) (poll : Poll) : Prop :=
  ∀ data since, poll.reply = some data → poll.grabbed = false → data.timestamp = .ok since →
    since = s.agent.since

theorem movesWithReply_of_keeps (hkeeps : s.Keeps poll) (h : s.collect col poll = .ok s') :
    MovesWithReply col s poll s' := by
  intro hmoved
  rcases collect_cases h with ⟨-, rfl⟩ | ⟨data, since, r, ressources, p, hreply, -, htime, hhanded, rfl⟩ |
    ⟨data, since, hreply, hgrabbed, htime, rfl⟩
  · exact absurd rfl hmoved
  · exact ⟨data, r, ressources, p, hreply, htime, hhanded, rfl⟩
  · exact absurd (hkeeps data since hreply hgrabbed htime) hmoved

theorem keeps_of_movesWithReply (hmoves : ∀ s', s.collect col poll = .ok s' →
    MovesWithReply col s poll s') : s.Keeps poll := by
  intro data since hreply hgrabbed htime
  by_contra hne
  obtain ⟨_, _, _, _, -, -, -, heq⟩ := hmoves _ (collect_ungrabbed hreply hgrabbed htime) hne
  have hlength := congrArg (fun s => s.processed.length) heq
  simp at hlength

theorem trunc_le {x since : ℚ} (hx : 0 ≤ x) (h : since ≤ x) : (trunc since : ℚ) ≤ x := by
  unfold trunc
  split
  · exact le_trans (Int.floor_le since) h
  · next hneg =>
    have hceil : ⌈since⌉ ≤ 0 := Int.ceil_le.mpr (by push_cast; linarith)
    exact le_trans (Int.cast_nonpos.mpr hceil) hx

/-- What was asked for reaches back to where the last reply ended. -/
theorem covered_collect (hkeeps : s.Keeps poll) (h : s.collect col poll = .ok s') (hs : s.Covered) :
    s'.Covered := by
  rcases collect_cases h with ⟨-, rfl⟩ | ⟨data, since, r, ressources, p, -, -, -, -, rfl⟩ |
    ⟨data, since, hreply, hgrabbed, htime, rfl⟩
  · exact hs
  · intro x hx
    simp only [Set.mem_iUnion]
    rcases lt_or_ge x s.agent.since with hlt | hge
    · have hold := hs ⟨hx.1, hlt⟩
      simp only [Set.mem_iUnion] at hold
      obtain ⟨span, hspan, hin⟩ := hold
      exact ⟨span, List.mem_append_left _ hspan, hin⟩
    · exact ⟨(trunc s.agent.since, since), List.mem_append_right _ (List.mem_singleton_self _),
        trunc_le hx.1 hge, hx.2.le⟩
  · have hsame := hkeeps data since hreply hgrabbed htime
    rw [PollState.Covered]
    simp only [hsame]
    exact hs

end poll

section run

variable {col : Collation} {ressources : List RessourceClient} {tables : ServiceTables}
  {db : Database} {polls : List Poll}

theorem covered_run {s : PollState} (h : EachStep (PollState.collect col) PollState.Keeps
    (.start ressources tables db) polls)
    (hrun : polls.foldlM (PollState.collect col) (.start ressources tables db) = .ok s) :
    s.Covered := by
  induction polls using List.reverseRecOn generalizing s with
  | nil =>
      cases hrun
      simp [PollState.Covered, PollState.start]
  | append_singleton polls poll ih =>
      obtain ⟨m, hm, hlast⟩ := foldlM_append_eq_ok.mp hrun
      obtain ⟨s', hs', hnil⟩ := foldlM_cons_eq_ok.mp hlast
      cases hnil
      apply covered_collect (h polls poll [] m rfl hm) hs'
      apply ih _ hm
      intro before x after t heq
      exact h before x (after ++ [poll]) t (by rw [heq, List.append_assoc, List.cons_append])

/-- In every run of calls, `since` moves only to the timestamps of replies that are handed to the
database code, and the spans of these replies leave no gap, if and only if no reply with another
timestamp than the last one meets a pool without a connection. -/
theorem since_moves_iff (col : Collation) (ressources : List RessourceClient)
    (tables : ServiceTables) (db : Database) (polls : List Poll) :
    (∀ before poll after s s', polls = before ++ poll :: after →
        before.foldlM (PollState.collect col) (.start ressources tables db) = .ok s →
        s.collect col poll = .ok s' → MovesWithReply col s poll s' ∧ s'.Covered) ↔
      EachStep (PollState.collect col) PollState.Keeps (.start ressources tables db) polls := by
  constructor
  · intro h before poll after s heq hrun
    have hmoves : ∀ s', s.collect col poll = .ok s' → MovesWithReply col s poll s' := by
      intro s' hs'
      exact (h before poll after s s' heq hrun hs').1
    exact keeps_of_movesWithReply hmoves
  · intro h before poll after s s' heq hrun hs'
    have hkeeps := h before poll after s heq hrun
    refine ⟨movesWithReply_of_keeps hkeeps hs', covered_collect hkeeps hs' (covered_run ?_ hrun)⟩
    intro first x rest t hsplit
    exact h first x (rest ++ poll :: after) t (by rw [heq, hsplit, List.append_assoc]; rfl)

end run

/-- A reply with the disk of the host in it. -/
def diskReply : Json :=
  .obj [("timestamp", .int 1000), ("system", .obj [("disk", .obj [("usage",
    .arr [diskLine 1000 20])])])]

/-- The pool has no connection for the reply. -/
def lostPoll : Poll := ⟨some diskReply, false, 0, fun _ => true, fun _ => .failed⟩

/-- The reply is not handed on, and `since` has its timestamp: it is not asked for again. -/
theorem reply_lost : ∃ s', (PollState.start [diskClient] noServices emptyDatabase).collect .binary
    lostPoll = .ok s' ∧ s'.agent.since = 1000 ∧ s'.processed = [] ∧
      ¬ MovesWithReply .binary (.start [diskClient] noServices emptyDatabase) lostPoll s' ∧
        ¬ s'.Covered := by
  have htime : diskReply.timestamp = .ok 1000 := by
    have hround : Rounding.roundBits 53 ((1000 : ℤ) : ℚ) = 1000 := by decide +kernel
    exact congrArg Except.ok hround
  refine ⟨_, collect_ungrabbed rfl rfl htime, rfl, rfl, ?_, ?_⟩
  · intro hmoves
    obtain ⟨data, r, ressources, p, -, -, -, hstate⟩ := hmoves (by norm_num [PollState.start])
    cases congrArg PollState.processed hstate
  · intro hcovered
    have hgap : (0 : ℚ) ∈ ⋃ span ∈ ([] : List (ℤ × ℚ)), Set.Icc (span.1 : ℚ) span.2 :=
      hcovered ⟨le_rfl, by norm_num⟩
    simp at hgap

end WatchedBack
