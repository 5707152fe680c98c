import WatchedBack.Library.Reports
import WatchedBack.Model.Services

/-! The views `s$failed` and `s$missing` of `schema.sql` on the processes and sockets of services.
The clock of the server shows whole seconds. -/

namespace WatchedBack

open Reports

/-- How the server compares statuses, and which it takes for `like 'ok%'`. -/
structure StatusCollation extends Collation where
  likeOk : String → Bool
  likeOk_same : ∀ {a b}, same a b = true → likeOk a = likeOk b
  likeOk_ok : likeOk "ok" = true

/-- To the byte. -/
def StatusCollation.binary : StatusCollation where
  toCollation := Collation.binary
  likeOk status := "ok".toList.isPrefixOf status.toList
  likeOk_same h := congrArg (fun s : String => "ok".toList.isPrefixOf s.toList) (of_decide_eq_true h)
  likeOk_ok := by decide

/-- What the views read of either table; also a row of `s$failed`. -/
structure StatusRow where
  timestamp : ℚ
  status : String
  servId : ℕ
  deriving DecidableEq, Repr

def ProcessRow.statusRow (row : ProcessRow) : StatusRow := ⟨row.timestamp, row.status, row.servId⟩

def SocketRow.statusRow (row : SocketRow) : StatusRow := ⟨row.timestamp, row.status, row.servId⟩

/-- A row of `s$missing`, but for `min(status)`. -/
structure MissingRow where
  id : ℕ
  name : String
  hostId : ℕ
  lateSec : ℚ
  cntStat : ℕ
  deriving DecidableEq, Repr

/-- `(UNIX_TIMESTAMP()*1000-timestamp)/1000` -/
def lateSec (now : ℕ) (timestamp : ℚ) : ℚ := (now * 1000 - timestamp) / 1000

/-- `60*15` -/
def lateLimit : ℚ := 60 * 15

namespace StatusRow

variable (col : StatusCollation)

/-- `group by status, serv_id` -/
def likeness : Likeness StatusRow where
  same x y := x.servId = y.servId ∧ col.same x.status y.status
  refl x := by simp [col.refl]
  symm h := by
    simp only [decide_eq_true_eq] at h ⊢
    exact ⟨h.1.symm, col.symm h.2⟩
  trans h h' := by
    simp only [decide_eq_true_eq] at h h' ⊢
    exact ⟨h.1.trans h'.1, col.trans h.2 h'.2⟩

/-- Rows that a `union` takes for one. -/
def distinct : Likeness StatusRow where
  same x y := x.timestamp = y.timestamp ∧ x.servId = y.servId ∧ col.same x.status y.status
  refl x := by simp [col.refl]
  symm h := by
    simp only [decide_eq_true_eq] at h ⊢
    exact ⟨h.1.symm, h.2.1.symm, col.symm h.2.2⟩
  trans h h' := by
    simp only [decide_eq_true_eq] at h h' ⊢
    exact ⟨h.1.trans h'.1, h.2.1.trans h'.2.1, col.trans h.2.2 h'.2.2⟩

def late (now : ℕ) (row : StatusRow) : Bool := lateSec now row.timestamp > lateLimit

/-- `min(timestamp)` of each group. -/
def oldest (rows : List StatusRow) : List StatusRow :=
  ((likeness col).firsts [] rows).map fun x =>
    { x with
      timestamp := ((rows.filter ((likeness col).same x)).map timestamp).foldl min x.timestamp }

def union (rows rows' : List StatusRow) : List StatusRow := (distinct col).firsts [] (rows ++ rows')

end StatusRow

namespace ServiceTables

variable (col : StatusCollation) (now : ℕ) (t : ServiceTables)

/-- `s$failed` -/
def sFailed : List StatusRow :=
  let failed := fun row : StatusRow => row.late now || !col.likeOk row.status
  StatusRow.union col (StatusRow.oldest col ((t.sockets.map SocketRow.statusRow).filter failed))
    (StatusRow.oldest col ((t.process.map ProcessRow.statusRow).filter failed))

/-- `group by x.serv_id, s.name` -/
def missingLikeness : Likeness (StatusRow × ServiceRow) where
  same x y := x.1.servId = y.1.servId ∧ col.same x.2.name y.2.name
  refl x := by simp [col.refl]
  symm h := by
    simp only [decide_eq_true_eq] at h ⊢
    exact ⟨h.1.symm, col.symm h.2⟩
  trans h h' := by
    simp only [decide_eq_true_eq] at h h' ⊢
    exact ⟨h.1.trans h'.1, col.trans h.2 h'.2⟩

/-- `count(distinct status)` -/
def statuses : Likeness String where
  same := col.same
  refl := col.refl
  symm := col.symm
  trans := col.trans

/-- The oldest report of each status of a service, with the service. -/
def missingJoin : List (StatusRow × ServiceRow) :=
  (StatusRow.union col (StatusRow.oldest col (t.sockets.map SocketRow.statusRow))
    (StatusRow.oldest col (t.process.map ProcessRow.statusRow))).flatMap fun x =>
      (t.services.filter fun s => x.servId = s.id ∧ x.late now).map fun s => (x, s)

/-- `s$missing` -/
def sMissing : List MissingRow :=
  let joined := t.missingJoin col now
  ((missingLikeness col).firsts [] joined).map fun x =>
    let group := joined.filter ((missingLikeness col).same x)
    { id := x.1.servId
      name := x.2.name
      hostId := x.2.hostId
      lateSec := (group.map fun y => lateSec now y.1.timestamp).foldl max (lateSec now x.1.timestamp)
      cntStat := ((statuses col).firsts [] (group.map fun y => y.1.status)).length }

end ServiceTables

end WatchedBack
