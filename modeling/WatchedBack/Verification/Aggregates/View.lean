import WatchedBack.Library.Laminar
import WatchedBack.Verification.Aggregates.Minute

/-! # The view over all levels

The view takes the rows of a level that are newer than the oldest row of the next finer one.
It counts everything once only where these happen to be the rows without finer rows. -/

namespace WatchedBack

open NullAggregates Grouping AggregState

variable {ι : Type} {cfg : AggregData} {t t' : Tables ι} {now : ℕ} {stmt : AggregStmt}
  {res : ℕ × ℕ}

/-! ### Levels -/

inductive Level
  | raw | minute | hour | day
  deriving DecidableEq, Repr

namespace Level

def rank : Level → ℕ
  | raw => 0
  | minute => 1
  | hour => 2
  | day => 3

/-- The next finer level. -/
def finer : Level → Option Level
  | raw => none
  | minute => some raw
  | hour => some minute
  | day => some hour

/-- The length of the interval that a row stands for. -/
def unit : Level → ℕ
  | raw => 0
  | minute => 60000
  | hour => 3600000
  | day => 86400000

/-- The time that a row stands for; a sample stands for an instant. -/
def interval (l : Level) (timestamp : ℚ) : Set ℚ :=
  if l = raw then {timestamp} else Set.Ico timestamp (timestamp + l.unit)

end Level

namespace Tables

/-- The rows of the four tables. -/
def rows (t : Tables ι) : Level → List (AggregRow ι)
  | .raw => t.d.map Row.raw
  | .minute => t.amRows
  | .hour => t.ahRows
  | .day => t.adRows

/-- The rows of the view that come from a level. -/
def viewRows (t : Tables ι) : Level → List (AggregRow ι)
  | .raw => t.d.map Row.raw
  | .minute => viewPart t.d t.amRows
  | .hour => viewPart t.amRows t.ahRows
  | .day => viewPart t.ahRows t.adRows

theorem allView_eq (t : Tables ι) :
    t.allView = t.viewRows .day ++ t.viewRows .hour ++ t.viewRows .minute ++ t.viewRows .raw := rfl

/-- A row of a finer table lies in the interval of the row. -/
def Refined (t : Tables ι) (l : Level) (x : AggregRow ι) : Prop :=
  ∃ l' : Level, l'.rank < l.rank ∧ ∃ y ∈ t.rows l', y.res = x.res ∧
    l'.interval y.timestamp ⊆ l.interval x.timestamp

/-- Rows of different levels do not overlap in the view, and it shows every row that is not
made up for by finer rows. -/
structure CountsOnce (t : Tables ι) : Prop where
  disjoint : ∀ l l' : Level, l ≠ l' → ∀ x ∈ t.viewRows l, ∀ y ∈ t.viewRows l', x.res = y.res →
    Disjoint (l.interval x.timestamp) (l'.interval y.timestamp)
  complete : ∀ l, ∀ x ∈ t.rows l, ¬ t.Refined l x → x ∈ t.viewRows l

/-- The next finer table of a level has an older row just where no finer row lies in the
interval. -/
def OlderIffBare (t : Tables ι) : Prop :=
  ∀ l, ∀ l' ∈ l.finer, ∀ x ∈ t.rows l,
    (∃ y ∈ t.rows l', y.res = x.res ∧ y.timestamp < x.timestamp) ↔ ¬ t.Refined l x

end Tables

/-! ### What the view shows -/

theorem mem_viewPart {ν : Type} {finer : List (Row ι ν)} {rows : List (AggregRow ι)}
    {x : AggregRow ι} :
    x ∈ viewPart finer rows ↔
      x ∈ rows ∧ ∃ y ∈ finer, y.res = x.res ∧ y.timestamp < x.timestamp := by
  rw [viewPart, List.mem_filter, mint, min?_any_lt]
  refine and_congr_right fun _ => ?_
  simp only [List.mem_map, List.mem_filter, decide_eq_true_eq]
  constructor
  · rintro ⟨-, ⟨y, ⟨hy, hres⟩, rfl⟩, hlt⟩
    exact ⟨y, hy, hres, hlt⟩
  · rintro ⟨y, hy, hres, hlt⟩
    exact ⟨_, ⟨y, ⟨hy, hres⟩, rfl⟩, hlt⟩

theorem mem_viewRows {l : Level} {x : AggregRow ι} :
    x ∈ t.viewRows l ↔ x ∈ t.rows l ∧
      ∀ l' ∈ l.finer, ∃ y ∈ t.rows l', y.res = x.res ∧ y.timestamp < x.timestamp := by
  cases l with
  | raw => simp [Tables.viewRows, Tables.rows, Level.finer]
  | minute =>
      refine mem_viewPart.trans (and_congr_right fun _ => ?_)
      simp [Tables.rows, Level.finer, Row.raw, Row.res]
  | hour => simp [Tables.viewRows, mem_viewPart, Tables.rows, Level.finer]
  | day => simp [Tables.viewRows, mem_viewPart, Tables.rows, Level.finer]

/-! ### Intervals are nested or disjoint -/

/-- The timestamp begins an interval. -/
def Level.Begins (l : Level) (timestamp : ℚ) : Prop :=
  l = raw ∨ ∃ k : ℤ, timestamp = k * l.unit

theorem Level.interval_nonempty (l : Level) (ts : ℚ) : (l.interval ts).Nonempty := by
  unfold interval
  split
  · exact ⟨ts, rfl⟩
  · cases l <;> simp_all [unit]

theorem Level.mem_interval {l : Level} (hl : l ≠ raw) {k : ℤ} {x : ℚ} :
    x ∈ l.interval (k * l.unit) ↔ ⌊x / l.unit⌋ = k := by
  have hunit : (0 : ℚ) < l.unit := by
    cases l <;> first | exact absurd rfl hl | norm_num [unit]
  rw [interval, if_neg hl, Set.mem_Ico, Int.floor_eq_iff, le_div_iff₀ hunit, div_lt_iff₀ hunit,
    add_mul, one_mul]

/-- The interval of a coarser level is made of those of a finer one. -/
theorem Level.unit_mul {l l' : Level} (h : l'.rank < l.rank) (hl' : l' ≠ raw) :
    ∃ n : ℕ, l.unit = l'.unit * n := by
  cases l <;> cases l' <;> simp [rank] at h hl'
  · exact ⟨60, rfl⟩
  · exact ⟨1440, rfl⟩
  · exact ⟨24, rfl⟩

theorem Level.interval_nested {l l' : Level} (h : l'.rank < l.rank) {x y : ℚ} (hx : l.Begins x)
    (hy : l'.Begins y) :
    l'.interval y ⊆ l.interval x ∨ Disjoint (l'.interval y) (l.interval x) := by
  have hl : l ≠ raw := by
    rintro rfl
    cases h
  obtain ⟨k, rfl⟩ := hx.resolve_left hl
  by_cases hl' : l' = raw
  · rw [interval, if_pos hl', Set.singleton_subset_iff, Set.disjoint_singleton_left]
    exact em _
  · obtain ⟨k', rfl⟩ := hy.resolve_left hl'
    obtain ⟨n, hn⟩ := unit_mul h hl'
    have hfloor : ∀ x : ℚ, ⌊x / l.unit⌋ = ⌊x / l'.unit⌋ / n := by
      intro x
      rw [hn, Nat.cast_mul, ← div_div, Int.floor_div_natCast]
    by_cases hk : k' / n = k
    · refine Or.inl fun x hx => ?_
      rw [mem_interval hl'] at hx
      rw [mem_interval hl, hfloor, hx, hk]
    · refine Or.inr (Set.disjoint_left.mpr fun x hx hx' => hk ?_)
      rw [mem_interval hl'] at hx
      rw [mem_interval hl, hfloor, hx] at hx'
      exact hx'

/-! ### Rows begin intervals -/

/-- The rows of every table stand at the beginning of an interval of its level. -/
def Tables.Aligned (t : Tables ι) : Prop := ∀ l, ∀ x ∈ t.rows l, l.Begins x.timestamp

theorem begins_of_mem_aggregate {ν : Type} {unit : ℕ} {col : List ν → Aggregate ℚ}
    {rows : List (Row ι ν)} {x : AggregRow ι} (h : x ∈ aggregate unit col rows) :
    ∃ k : ℤ, x.timestamp = k * unit := by
  obtain ⟨r, -, rfl⟩ := mem_aggregate.mp h
  exact ⟨_, rfl⟩

/-- What inserts and purges keep of a table. -/
theorem begins_of_exec {unit retention : ℕ} {rows rows' more : List (AggregRow ι)}
    {inserts : Bool} {purges : Prop} [Decidable purges] (h : rows' = if inserts then rows ++ more
      else if purges then purge now retention rows else rows)
    (hrows : ∀ x ∈ rows, ∃ k : ℤ, x.timestamp = k * unit)
    (hmore : inserts = true → ∀ x ∈ more, ∃ k : ℤ, x.timestamp = k * unit) :
    ∀ x ∈ rows', ∃ k : ℤ, x.timestamp = k * unit := by
  intro x hx
  rw [h] at hx
  split at hx
  · next hins =>
    rcases List.mem_append.mp hx with hold | hnew
    · exact hrows x hold
    · exact hmore hins x hnew
  · split at hx
    · exact hrows x (List.mem_of_mem_filter hx)
    · exact hrows x hx

theorem Tables.Aligned.exec (h : t.Aligned) (ht : t.exec cfg now stmt = some t') : t'.Aligned := by
  have hselected : ∀ x ∈ stmt.selected cfg now t,
      (stmt.insertsAm = true → ∃ k : ℤ, x.timestamp = k * (60000 : ℕ)) ∧
      (stmt.insertsAh = true → ∃ k : ℤ, x.timestamp = k * (3600000 : ℕ)) ∧
      (stmt.insertsAd = true → ∃ k : ℤ, x.timestamp = k * (86400000 : ℕ)) := by
    intro x hx
    cases stmt with
    | createAm | baseAm => exact ⟨fun _ => begins_of_mem_aggregate hx, nofun, nofun⟩
    | createAh | baseAh => exact ⟨nofun, fun _ => begins_of_mem_aggregate hx, nofun⟩
    | createAd | baseAd => exact ⟨nofun, nofun, fun _ => begins_of_mem_aggregate hx⟩
    | _ => simp [AggregStmt.selected] at hx
  intro l x hx
  cases l with
  | raw => exact Or.inl rfl
  | minute =>
      exact Or.inr (begins_of_exec (exec_am ht) (fun y hy => (h .minute y hy).resolve_left (by simp))
        (fun hins y hy => (hselected y hy).1 hins) x hx)
  | hour =>
      exact Or.inr (begins_of_exec (exec_ah ht) (fun y hy => (h .hour y hy).resolve_left (by simp))
        (fun hins y hy => (hselected y hy).2.1 hins) x hx)
  | day =>
      exact Or.inr (begins_of_exec (exec_ad ht) (fun y hy => (h .day y hy).resolve_left (by simp))
        (fun hins y hy => (hselected y hy).2.2 hins) x hx)

theorem aligned_run (cfg : AggregData) (actions : List (AggregAction ι)) :
    (run cfg actions).tables.Aligned := by
  apply run_rule (fun s => s.tables.Aligned)
  · intro l x hx
    cases l <;> simp [initial, Tables.rows, Tables.amRows, Tables.ahRows, Tables.adRows] at hx
  · intro s row hs l x hx
    cases l with
    | raw => exact Or.inl rfl
    | minute => exact hs .minute x hx
    | hour => exact hs .hour x hx
    | day => exact hs .day x hx
  · exact fun s data hs => hs
  · intro s ok now stmt _ hs
    rcases send_cases cfg ok now s stmt with ⟨t, ht, heq⟩ | heq
    · rw [heq]
      exact hs.exec ht
    · rw [heq]
      exact hs
  · exact fun s now stmt _ _ hs => hs

/-! ### When the view counts everything once -/

/-- The rows of a resource, with their levels. -/
def Tables.Aligned.family (h : t.Aligned) (res : ℕ × ℕ) :
    Laminar.Family (Level × AggregRow ι) ℚ where
  rows := {x | x.2 ∈ t.rows x.1 ∧ x.2.res = res}
  rank x := x.1.rank
  cell x := x.1.interval x.2.timestamp
  nonempty x _ := x.1.interval_nonempty _
  nested x hx y hy hlt := Level.interval_nested hlt (h x.1 x.2 hx.1) (h y.1 y.2 hy.1)

theorem Tables.Aligned.refined_iff (h : t.Aligned) {l : Level} {x : AggregRow ι} :
    Laminar.Refined (h.family x.res) (l, x) ↔ t.Refined l x := by
  constructor
  · rintro ⟨⟨l', y⟩, ⟨hy, hres⟩, hlt, hsub⟩
    exact ⟨l', hlt, y, hy, hres, hsub⟩
  · rintro ⟨l', hlt, y, hy, hres, hsub⟩
    exact ⟨(l', y), ⟨hy, hres⟩, hlt, hsub⟩

/-- The rows of the view of a resource, with their levels. -/
def Tables.viewOf (t : Tables ι) (res : ℕ × ℕ) : Set (Level × AggregRow ι) :=
  {x | x.2 ∈ t.viewRows x.1 ∧ x.2.res = res}

theorem Level.rank_injective : Function.Injective Level.rank := by
  intro l l' h
  cases l <;> cases l' <;> first | rfl | cases h

theorem Tables.Aligned.countsOnce_iff (h : t.Aligned) :
    t.CountsOnce ↔ ∀ res, Laminar.Separate (h.family res) (t.viewOf res) ∧
      Laminar.Covers (h.family res) (t.viewOf res) := by
  constructor
  · intro hc res
    refine ⟨?_, ?_⟩
    · rintro ⟨l, x⟩ ⟨hx, rfl⟩ ⟨l', y⟩ ⟨hy, hres⟩ hne
      exact hc.disjoint l l' (fun heq => hne (congrArg Level.rank heq)) x hx y hy hres.symm
    · rintro ⟨l, x⟩ ⟨hx, rfl⟩ hbare
      exact ⟨hc.complete l x hx fun hrefined => hbare (h.refined_iff.mpr hrefined), rfl⟩
  · intro hall
    refine ⟨fun l l' hne x hx y hy hres => ?_, fun l x hx hbare => ?_⟩
    · exact (hall x.res).1 (l, x) ⟨hx, rfl⟩ (l', y) ⟨hy, hres.symm⟩
        fun heq => hne (Level.rank_injective heq)
    · exact ((hall x.res).2 (l, x) ⟨hx, rfl⟩ fun hrefined => hbare (h.refined_iff.mp hrefined)).1

theorem Tables.olderIffBare_iff :
    t.OlderIffBare ↔ ∀ l, ∀ x ∈ t.rows l, x ∈ t.viewRows l ↔ ¬ t.Refined l x := by
  refine forall_congr' fun l => ?_
  cases hfiner : l.finer with
  | none =>
      -- every sample is in the view, and nothing is finer
      have hl : l = .raw := by
        cases l <;> first | rfl | cases hfiner
      subst hl
      simp [mem_viewRows, Level.finer, Tables.Refined, Level.rank]
  | some l' =>
      simp only [mem_viewRows, hfiner, Option.mem_some_iff, forall_eq']
      exact forall₂_congr fun x hx => by rw [and_iff_right hx]

/-- In every state of every run, the view counts everything once if and only if the next finer
table of each level has an older row just for the rows without finer rows. -/
theorem countsOnce_iff_olderIffBare {ι : Type} (cfg : AggregData)
    (actions : List (AggregAction ι)) :
    (run cfg actions).tables.CountsOnce ↔ (run cfg actions).tables.OlderIffBare := by
  have h := aligned_run cfg actions
  have hsub : ∀ res, (run cfg actions).tables.viewOf res ⊆ (h.family res).rows :=
    fun res x hx => ⟨(mem_viewRows.mp hx.1).1, hx.2⟩
  rw [h.countsOnce_iff, Tables.olderIffBare_iff]
  constructor
  · intro hall l x hx
    have hiff := (Laminar.separate_and_covers_iff (hsub x.res)).mp (hall x.res) (l, x) ⟨hx, rfl⟩
    rw [h.refined_iff] at hiff
    rw [← hiff]
    exact ⟨fun hview => ⟨hview, rfl⟩, fun hview => hview.1⟩
  · intro hall res
    refine (Laminar.separate_and_covers_iff (hsub res)).mpr ?_
    rintro ⟨l, x⟩ ⟨hx, rfl⟩
    rw [h.refined_iff, ← hall l x hx]
    exact ⟨fun hview => hview.1, fun hview => ⟨hview, rfl⟩⟩

/-! ### Two minutes -/

/-- The samples of two minutes, and a pass. -/
def twoMinutes : List (AggregAction Unit) :=
  [.sample (sampleAt 864060000 3), .sample (sampleAt 864120000 5), passAt 874800]

/-- The second minute is in the view next to its sample: of two samples, three are counted. -/
theorem second_minute_counted_twice :
    (run unitDelays twoMinutes).tables.al = true ∧
      ¬ (run unitDelays twoMinutes).tables.CountsOnce ∧ (stored twoMinutes).length = 2 ∧
      ((run unitDelays twoMinutes).tables.allView.map fun r => (r.columns ()).cnt).sum = 3 := by
  refine ⟨by decide +kernel, fun h => ?_, rfl, by decide +kernel⟩
  have hoverlap : ∃ x ∈ (run unitDelays twoMinutes).tables.viewRows .minute,
      ∃ y ∈ (run unitDelays twoMinutes).tables.viewRows .raw, x.res = y.res ∧
        x.timestamp = 864120000 ∧ y.timestamp = 864120000 := by
    decide +kernel
  obtain ⟨x, hx, y, hy, hres, hxt, hyt⟩ := hoverlap
  have hdisj := h.disjoint .minute .raw (by decide) x hx y hy hres
  rw [hxt, hyt] at hdisj
  have hin : (864120000 : ℚ) ∈ Level.minute.interval 864120000 := by
    rw [Level.interval, if_neg (by decide), Set.mem_Ico, Level.unit]
    norm_num
  exact Set.disjoint_left.mp hdisj hin rfl

end WatchedBack
