import WatchedBack.Model.Aggregator

/-! # What the aggregating statements select -/

namespace WatchedBack

open NullAggregates Grouping

/-! ### Extreme timestamps -/

theorem max?_any_lt {xs : List ℚ} {t : ℚ} :
    xs.max?.any (fun y => y < t) = true ↔ xs ≠ [] ∧ ∀ x ∈ xs, x < t := by
  cases h : xs.max? with
  | none =>
      rw [List.max?_eq_none_iff] at h
      simp [h]
  | some m =>
      obtain ⟨hmem, hmax⟩ := List.max?_eq_some_iff.mp h
      simp only [Option.any_some, decide_eq_true_eq]
      constructor
      · intro hm
        exact ⟨List.ne_nil_of_mem hmem, fun x hx => (hmax x hx).trans_lt hm⟩
      · exact fun hall => hall.2 m hmem

theorem min?_any_lt {xs : List ℚ} {t : ℚ} :
    xs.min?.any (fun m => t > m) = true ↔ ∃ x ∈ xs, x < t := by
  cases h : xs.min? with
  | none =>
      rw [List.min?_eq_none_iff] at h
      simp [h]
  | some m =>
      obtain ⟨hmem, hmin⟩ := List.min?_eq_some_iff.mp h
      simp only [Option.any_some, decide_eq_true_eq]
      constructor
      · exact fun hm => ⟨m, hmem, hm⟩
      · rintro ⟨x, hx, hlt⟩
        exact (hmin x hx).trans_lt hlt

section rows

variable {ι ν : Type} {unit : ℕ} {col : List ν → Aggregate ℚ} {source : List (Row ι ν)}
  {target : List (AggregRow ι)} {others : List (ℕ × ℕ)} {before : ℤ}

/-- A bucket of the resource is newer than what the target has of it. -/
theorem lastAggregated_any {res : ℕ × ℕ} {t : ℚ} :
    (lastAggregated target others res).any (fun y => y < t) = true ↔
      ((∃ x ∈ target, x.res = res) ∨ res ∈ others) ∧
        (∀ x ∈ target, x.res = res → x.timestamp < t) ∧ (res ∈ others → 0 < t) := by
  rw [lastAggregated, max?_any_lt]
  simp only [ne_eq, List.append_eq_nil_iff, List.map_eq_nil_iff, List.filter_eq_nil_iff,
    decide_eq_true_eq, List.mem_append, List.mem_map, List.mem_filter, not_and_or, not_forall,
    not_not]
  refine and_congr ?_ ?_
  · refine or_congr ?_ ?_ <;> simp
  · constructor
    · intro h
      exact ⟨fun x hx hr => h _ (Or.inl ⟨x, ⟨hx, hr⟩, rfl⟩),
        fun hr => h 0 (Or.inr ⟨res, ⟨hr, rfl⟩, rfl⟩)⟩
    · rintro ⟨h₁, h₂⟩ y (⟨x, ⟨hx, hr⟩, rfl⟩ | ⟨z, ⟨hz, rfl⟩, rfl⟩)
      · exact h₁ x hx hr
      · exact h₂ hz

/-! ### Buckets -/

/-- A coarser bucket is determined by the finer one. -/
theorem Row.bucket_mul (n : ℕ) (r : Row ι ν) : r.bucket (unit * n) = r.bucket unit / n := by
  rw [Row.bucket, Row.bucket, Nat.cast_mul, ← div_div, Int.floor_div_natCast]

theorem Row.bucket_of_timestamp (hunit : 0 < unit) {r : Row ι ν} {b : ℤ}
    (h : r.timestamp = b * unit) : r.bucket unit = b := by
  have hne : (unit : ℚ) ≠ 0 := by exact_mod_cast hunit.ne'
  rw [Row.bucket, h, mul_div_cancel_right₀ _ hne, Int.floor_intCast]

theorem Row.le_bucket_iff (hunit : 0 < unit) {r : Row ι ν} {b : ℤ} :
    b ≤ r.bucket unit ↔ (b : ℚ) * unit ≤ r.timestamp := by
  rw [Row.bucket, Int.le_floor, le_div_iff₀ (by exact_mod_cast hunit)]

/-! ### Grouped rows -/

/-- The row that a bucket of a resource is given. -/
def bucketRow (unit : ℕ) (col : List ν → Aggregate ℚ) (source : List (Row ι ν)) (res : ℕ × ℕ)
    (b : ℤ) : AggregRow ι :=
  ⟨res.1, res.2, b * unit, fun c =>
    col ((group (fun r : Row ι ν => (r.res, r.bucket unit)) (res, b) source).map fun r =>
      r.columns c)⟩

@[simp] theorem bucketRow_res (res : ℕ × ℕ) (b : ℤ) :
    (bucketRow unit col source res b).res = res := rfl

@[simp] theorem bucketRow_timestamp (res : ℕ × ℕ) (b : ℤ) :
    (bucketRow unit col source res b).timestamp = b * unit := rfl

@[simp] theorem bucketRow_key (res : ℕ × ℕ) (b : ℤ) :
    (bucketRow unit col source res b).key = (res, (b : ℚ) * unit) := rfl

theorem bucketRow_bucket (hunit : 0 < unit) (res : ℕ × ℕ) (b : ℤ) :
    (bucketRow unit col source res b).bucket unit = b :=
  Row.bucket_of_timestamp hunit rfl

/-- Sources that agree on a bucket give the same row. -/
theorem bucketRow_congr {source' : List (Row ι ν)} {res : ℕ × ℕ} {b : ℤ}
    (h : group (fun r : Row ι ν => (r.res, r.bucket unit)) (res, b) source =
      group (fun r : Row ι ν => (r.res, r.bucket unit)) (res, b) source') :
    bucketRow unit col source res b = bucketRow unit col source' res b := by
  rw [bucketRow, bucketRow, h]

/-- A filter that passes the whole bucket does not change its row. -/
theorem bucketRow_filter {p : Row ι ν → Bool} {res : ℕ × ℕ} {b : ℤ}
    (h : ∀ r ∈ source, r.res = res → r.bucket unit = b → p r = true) :
    bucketRow unit col (source.filter p) res b = bucketRow unit col source res b := by
  refine bucketRow_congr (group_filter_of_key fun r hr hk => ?_)
  obtain ⟨hres, hb⟩ := Prod.mk.inj hk
  exact h r hr hres hb

/-- Rows of other buckets do not change the row of a bucket. -/
theorem bucketRow_append {more : List (Row ι ν)} {res : ℕ × ℕ} {b : ℤ}
    (h : ∀ r ∈ more, r.res = res → r.bucket unit ≠ b) :
    bucketRow unit col (source ++ more) res b = bucketRow unit col source res b := by
  apply bucketRow_congr
  have hnone : group (fun r : Row ι ν => (r.res, r.bucket unit)) (res, b) more = [] := by
    rw [group, List.filter_eq_nil_iff]
    intro r hr
    simpa using h r hr
  rw [group, List.filter_append]
  exact (congrArg _ hnone).trans (List.append_nil _)

theorem bucketRow_append_of_ne {r : Row ι ν} {res : ℕ × ℕ} {b : ℤ}
    (h : r.res = res → r.bucket unit ≠ b) :
    bucketRow unit col (source ++ [r]) res b = bucketRow unit col source res b := by
  apply bucketRow_append
  simpa using h

theorem mem_aggregate {x : AggregRow ι} :
    x ∈ aggregate unit col source ↔
      ∃ r ∈ source, x = bucketRow unit col source r.res (r.bucket unit) := by
  rw [aggregate, mem_groupBy]
  constructor
  · rintro ⟨k, ⟨r, hr, rfl⟩, rfl⟩
    exact ⟨r, hr, rfl⟩
  · rintro ⟨r, hr, rfl⟩
    exact ⟨_, ⟨r, hr, rfl⟩, rfl⟩

/-- A statement never selects two rows with one key. -/
theorem nodup_aggregate (hunit : 0 < unit) :
    ((aggregate unit col source).map Row.key).Nodup := by
  have hne : (unit : ℚ) ≠ 0 := by exact_mod_cast hunit.ne'
  refine nodup_map_groupBy source fun k k' h => ?_
  obtain ⟨hres, hts⟩ := Prod.mk.inj h
  have hb : (k.2 : ℚ) = k'.2 := mul_right_cancel₀ hne hts
  exact Prod.ext hres (by exact_mod_cast hb)

/-! ### The two kinds of selects -/

/-- The rows that a create selects: one for each bucket before the limit, made of all of it. -/
theorem mem_createSelect {x : AggregRow ι} :
    x ∈ createSelect unit col before source ↔
      ∃ r ∈ source, r.bucket unit < before ∧
        x = bucketRow unit col source r.res (r.bucket unit) := by
  rw [createSelect, mem_aggregate]
  simp only [List.mem_filter, decide_eq_true_eq, and_assoc]
  refine exists_congr fun r => and_congr_right fun _ => and_congr_right fun hb => ?_
  rw [bucketRow_filter fun q _ _ hq => by simpa [hq] using hb]

/-- The resource is joined, and the bucket is newer than all of it in the target. -/
def Newer (unit : ℕ) (target : List (AggregRow ι)) (others : List (ℕ × ℕ)) (res : ℕ × ℕ) (b : ℤ) :
    Prop :=
  ((∃ x ∈ target, x.res = res) ∨ res ∈ others) ∧
    (∀ x ∈ target, x.res = res → x.timestamp < (b : ℚ) * unit) ∧
      (res ∈ others → 0 < (b : ℚ) * unit)

instance (unit : ℕ) (target : List (AggregRow ι)) (others : List (ℕ × ℕ)) (res : ℕ × ℕ) (b : ℤ) :
    Decidable (Newer unit target others res b) :=
  inferInstanceAs (Decidable (_ ∧ _ ∧ _))

/-- The rows that an insert selects: one for each newer bucket before the limit, made of all
of it. -/
theorem mem_baseSelect {x : AggregRow ι} :
    x ∈ baseSelect unit col before target others source ↔
      ∃ r ∈ source, r.bucket unit < before ∧ Newer unit target others r.res (r.bucket unit) ∧
        x = bucketRow unit col source r.res (r.bucket unit) := by
  rw [baseSelect, mem_aggregate]
  simp only [List.mem_filter, Bool.decide_and, Bool.and_eq_true, decide_eq_true_eq,
    lastAggregated_any, and_assoc]
  refine exists_congr fun r => and_congr_right fun _ => and_congr_right fun hb => ?_
  constructor
  · rintro ⟨h₁, h₂, h₃, rfl⟩
    refine ⟨⟨h₁, h₂, h₃⟩, bucketRow_filter fun q _ hres hq => ?_⟩
    simp only [hq, hres, hb, Bool.and_eq_true, decide_eq_true_eq, true_and]
    exact ⟨h₁, h₂, h₃⟩
  · rintro ⟨⟨h₁, h₂, h₃⟩, rfl⟩
    refine ⟨h₁, h₂, h₃, (bucketRow_filter fun q _ hres hq => ?_).symm⟩
    simp only [hq, hres, hb, Bool.and_eq_true, decide_eq_true_eq, true_and]
    exact ⟨h₁, h₂, h₃⟩

/-- An insert never selects a key that the target has. -/
theorem nodup_append_baseSelect (hunit : 0 < unit) (htarget : (target.map Row.key).Nodup) :
    ((target ++ baseSelect unit col before target others source).map Row.key).Nodup := by
  rw [List.map_append, List.nodup_append]
  refine ⟨htarget, nodup_aggregate hunit, ?_⟩
  intro k hk k' hk'
  obtain ⟨x, hx, rfl⟩ := List.mem_map.mp hk
  obtain ⟨y, hy, rfl⟩ := List.mem_map.mp hk'
  obtain ⟨r, -, -, hnew, rfl⟩ := mem_baseSelect.mp hy
  intro heq
  obtain ⟨hres, hts⟩ := Prod.mk.inj heq
  exact (hnew.2.1 x hx hres).ne hts

end rows

/-! ### Aggregates of aggregates -/

/-- Where the finer table has the row of every finer bucket with samples, each made of all its
samples, merging its rows aggregates the samples of the coarser bucket. -/
theorem bucketRow_merge {ι : Type} {unit n : ℕ} {fine : List (AggregRow ι)} {raw : List (Sample ι)}
    {res : ℕ × ℕ} {b : ℤ} (hnodup : (fine.map Row.key).Nodup)
    (hexact : ∀ x ∈ fine, x.res = res → x.bucket unit / n = b →
      x = bucketRow unit colm raw res (x.bucket unit))
    (hcover : ∀ r ∈ raw, r.res = res → r.bucket unit / n = b →
      ∃ x ∈ fine, x.res = res ∧ x.bucket unit = r.bucket unit) :
    bucketRow (unit * n) colh fine res b = bucketRow (unit * n) colm raw res b := by
  let minute : Sample ι → (ℕ × ℕ) × ℤ := fun r => (r.res, r.bucket unit)
  let up : (ℕ × ℕ) × ℤ → (ℕ × ℕ) × ℤ := fun k => (k.1, k.2 / n)
  let parts := group (fun x : AggregRow ι => (x.res, x.bucket (unit * n))) (res, b) fine
  let keys := parts.map fun x => (x.res, x.bucket unit)
  have hparts : ∀ x ∈ parts, x ∈ fine ∧ x.res = res ∧ x.bucket unit / n = b := by
    intro x hx
    obtain ⟨hmem, hkey⟩ := mem_group.mp hx
    obtain ⟨hres, hb⟩ := Prod.mk.inj hkey
    exact ⟨hmem, hres, by rw [← hb, Row.bucket_mul]⟩
  have hkeys : keys.Nodup := by
    have hnd : parts.Nodup := (List.Nodup.of_map _ hnodup).filter _
    refine List.Nodup.map_on (fun x hx y hy heq => ?_) hnd
    obtain ⟨hx₁, hx₂, hx₃⟩ := hparts x hx
    obtain ⟨hy₁, hy₂, hy₃⟩ := hparts y hy
    rw [hexact x hx₁ hx₂ hx₃, hexact y hy₁ hy₂ hy₃, (Prod.mk.inj heq).2]
  -- together the parts have all samples of the coarser bucket, each once
  have hperm : ((keys.map fun k => group minute k raw).flatten).Perm
      (group (fun r : Sample ι => (r.res, r.bucket (unit * n))) (res, b) raw) := by
    have hup : ∀ r : Sample ι, (r.res, r.bucket (unit * n)) = up (minute r) := by
      intro r
      rw [Row.bucket_mul]
    refine flatten_groups_perm_coarse up hup hkeys ?_ ?_
    · intro k hk
      obtain ⟨x, hx, rfl⟩ := List.mem_map.mp hk
      obtain ⟨-, hres, hb⟩ := hparts x hx
      simp only [up, hres, hb]
    · intro r hr hkey
      obtain ⟨hres, hb⟩ := Prod.mk.inj hkey
      rw [Row.bucket_mul] at hb
      obtain ⟨x, hx, hxres, hxb⟩ := hcover r hr hres hb
      refine List.mem_map.mpr ⟨x, mem_group.mpr ⟨hx, ?_⟩, ?_⟩
      · rw [Row.bucket_mul, hxres, hxb, hb]
      · rw [hxres, hxb, ← hres]
  have hcolumns : ∀ c, colh (parts.map fun x => x.columns c) =
      colm ((group (fun r : Sample ι => (r.res, r.bucket (unit * n))) (res, b) raw).map
        fun r => r.columns c) := by
    intro c
    have hvalues : (parts.map fun x => x.columns c) =
        (keys.map fun k => (group minute k raw).map fun r => r.columns c).map
          Aggregate.ofValues := by
      rw [List.map_map, List.map_map]
      refine List.map_congr_left fun x hx => ?_
      obtain ⟨h₁, h₂, h₃⟩ := hparts x hx
      simp only [Function.comp_apply, h₂]
      exact congrArg (fun y : AggregRow ι => y.columns c) (hexact x h₁ h₂ h₃)
    have hflat : (keys.map fun k => (group minute k raw).map fun r => r.columns c).flatten =
        ((keys.map fun k => group minute k raw).flatten).map fun r => r.columns c := by
      simp only [List.map_flatten, List.map_map, Function.comp_def]
    rw [hvalues, colh, Aggregate.merge_map_ofValues, hflat]
    exact Aggregate.ofValues_perm (hperm.map _)
  exact congrArg (fun f => (⟨res.1, res.2, (b : ℚ) * (unit * n : ℕ), f⟩ : AggregRow ι))
    (funext hcolumns)

end WatchedBack
