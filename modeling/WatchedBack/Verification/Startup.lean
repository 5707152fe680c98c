import WatchedBack.Verification.Startup.Steps

/-! # The configuration at the start

Every step of the start fills settings up or reads some, so what it leaves is a matter of the
settings that the file has. -/

namespace WatchedBack

open Defaults Fallible Runs

/-! ### Values with members -/

/-- The members of an object; a null has none. -/
def Json.object : Json → Option (List (String × Json))
  | .null => some []
  | .obj members => some members
  | _ => none

def Json.entry (v : Json) (name : String) : Option Json := v.object.bind (·.lookup name)

/-- The settings of a configuration, each by its section and key. -/
def settings (data : Json) (k : String × String) : Option Json :=
  ((data.entry k.1).bind Json.object).bind (·.lookup k.2)

/-- The section is an object, or null or missing. -/
def Shaped (data : Json) (sec : String) : Prop :=
  data.object.isSome = true ∧ ((data.entry sec).getD .null).object.isSome = true

section accessors

variable {v w cfg data : Json} {key sec name : String} {b : Bool}

theorem member_of_object {members : List (String × Json)} (h : v.object = some members)
    (key : String) : v.member key = .ok ((members.lookup key).getD .null) := by
  cases v <;> cases h <;> rfl

theorem isMember_of_object {members : List (String × Json)} (h : v.object = some members)
    (key : String) : v.isMember key = .ok (members.lookup key).isSome := by
  cases v <;> cases h <;> rfl

theorem set_of_object {members : List (String × Json)} (h : v.object = some members) (key : String)
    (w : Json) : v.set key w = .ok (.obj (put key w members)) := by
  cases v <;> cases h <;> rfl

theorem object_of_member (h : v.member key = .ok w) : v.object.isSome = true := by
  cases v with
  | null => rfl
  | obj members => rfl
  | _ => cases h

theorem object_of_isMember (h : v.isMember key = .ok b) : v.object.isSome = true := by
  cases v with
  | null => rfl
  | obj members => rfl
  | _ => cases h

theorem member_eq_entry (h : v.object.isSome = true) (key : String) :
    v.member key = .ok ((v.entry key).getD .null) := by
  obtain ⟨members, hmembers⟩ := Option.isSome_iff_exists.mp h
  rw [member_of_object hmembers, Json.entry, hmembers]
  rfl

theorem isMember_eq_entry (h : v.object.isSome = true) (key : String) :
    v.isMember key = .ok (v.entry key).isSome := by
  obtain ⟨members, hmembers⟩ := Option.isSome_iff_exists.mp h
  rw [isMember_of_object hmembers, Json.entry, hmembers]
  rfl

theorem settings_eq_entry (data : Json) (sec key : String) :
    settings data (sec, key) = ((data.entry sec).getD .null).entry key := by
  rw [settings]
  cases data.entry sec <;> rfl

theorem shaped_of_settings (h : (settings data (sec, key)).isSome = true) : Shaped data sec := by
  obtain ⟨w, hw⟩ := Option.isSome_iff_exists.mp h
  obtain ⟨members, hmembers, -⟩ := Option.bind_eq_some_iff.mp hw
  obtain ⟨cfg, hcfg, hobject⟩ := Option.bind_eq_some_iff.mp hmembers
  obtain ⟨ms, hms, -⟩ := Option.bind_eq_some_iff.mp hcfg
  refine ⟨Option.isSome_iff_exists.mpr ⟨ms, hms⟩, ?_⟩
  rw [hcfg]
  exact Option.isSome_iff_exists.mpr ⟨members, hobject⟩

/-- A setting that is there is read. -/
theorem readSetting_of_settings (h : settings data (sec, key) = some v) :
    readSetting sec key data = .ok v := by
  have hshaped := shaped_of_settings (Option.isSome_iff_exists.mpr ⟨v, h⟩)
  rw [settings_eq_entry] at h
  rw [readSetting, member_eq_entry hshaped.1, ok_bind, member_eq_entry hshaped.2, h]
  rfl

end accessors

/-! ### One assignment -/

/-- What a step leaves alone: the other sections, and whether a section is an object. -/
structure Keeps (secs : List String) (data data' : Json) : Prop where
  entries : ∀ name, name ∉ secs → data'.entry name = data.entry name
  shaped : ∀ sec, Shaped data' sec ↔ Shaped data sec
  object : data'.object.isSome = data.object.isSome

section steps

variable {data data' data'' v : Json} {sec key name : String} {secs : List String}
  {ds : List (String × Json)}

@[refl] theorem Keeps.refl (secs : List String) (data : Json) : Keeps secs data data :=
  ⟨fun _ _ => rfl, fun _ => Iff.rfl, rfl⟩

theorem Keeps.trans {secs' : List String} (h : Keeps secs data data')
    (h' : Keeps secs' data' data'') : Keeps (secs ++ secs') data data'' := by
  refine ⟨fun name hname => ?_, fun sec => (h'.shaped sec).trans (h.shaped sec),
    h'.object.trans h.object⟩
  rw [List.mem_append, not_or] at hname
  rw [h'.entries name hname.2, h.entries name hname.1]

/-- `data[sec][key] = value` -/
def assign (sec key : String) (data value : Json) : Except Fault Json := do
  let cfg ← data.member sec
  data.set sec (← cfg.set key value)

theorem assign_spec (h : Shaped data sec) (key : String) (value : Json) :
    ∃ data', assign sec key data value = .ok data' ∧
      settings data' = Function.update (settings data) (sec, key) (some value) ∧
      Keeps [sec] data data' := by
  obtain ⟨hdata, hcfg⟩ := h
  obtain ⟨members, hmembers⟩ := Option.isSome_iff_exists.mp hdata
  obtain ⟨ks, hks⟩ := Option.isSome_iff_exists.mp hcfg
  have hassign : assign sec key data value =
      .ok (.obj (put sec (.obj (put key value ks)) members)) := by
    rw [assign, member_eq_entry hdata, ok_bind, set_of_object hks, ok_bind, set_of_object hmembers]
  have hentry (name : String) : (Json.obj (put sec (.obj (put key value ks)) members)).entry name =
      if name = sec then some (.obj (put key value ks)) else data.entry name := by
    rw [Json.entry, Json.object, Option.bind_some, lookup_put, Json.entry, hmembers]
    rfl
  refine ⟨_, hassign, ?_, fun name hname => ?_, fun name => ?_, ?_⟩
  · funext k
    obtain ⟨s, k⟩ := k
    rw [settings_eq_entry, hentry]
    by_cases hs : s = sec
    · subst hs
      rw [if_pos rfl, Option.getD_some, Json.entry, Json.object, Option.bind_some, lookup_put]
      by_cases hk : k = key
      · subst hk
        rw [if_pos rfl, Function.update_self]
      · rw [if_neg hk, Function.update_of_ne (by simpa using hk), settings_eq_entry, Json.entry, hks]
        rfl
    · rw [if_neg hs, Function.update_of_ne (by simp [hs]), settings_eq_entry]
  · rw [hentry, if_neg (by simpa using hname)]
  · unfold Shaped
    rw [hentry]
    by_cases hname : name = sec
    · subst hname
      rw [if_pos rfl, hcfg, hdata]
      rfl
    · rw [if_neg hname, hdata]
      rfl
  · rw [hdata]
    rfl

/-- An assignment of the value that is there changes nothing. -/
theorem assign_self (h : settings data (sec, key) = some v) : assign sec key data v = .ok data := by
  obtain ⟨members, hmembers, hlookup⟩ := Option.bind_eq_some_iff.mp h
  obtain ⟨cfg, hcfg, hobject⟩ := Option.bind_eq_some_iff.mp hmembers
  obtain ⟨ms, hms, hentry⟩ := Option.bind_eq_some_iff.mp hcfg
  have hcfgObj : cfg = .obj members := by
    cases cfg with
    | null =>
        cases hobject
        cases hlookup
    | obj members' =>
        cases hobject
        rfl
    | _ => cases hobject
  have hdataObj : data = .obj ms := by
    cases data with
    | null =>
        cases hms
        cases hentry
    | obj members' =>
        cases hms
        rfl
    | _ => cases hms
  rw [assign, member_of_object hms, hentry, Option.getD_some, ok_bind, set_of_object hobject,
    ok_bind, set_of_object hms, put_self hlookup, ← hcfgObj, put_self hentry, ← hdataObj]

/-! ### Defaults -/

theorem setDefault_eq (sec key : String) (data value : Json) (h : Shaped data sec) :
    setDefault sec key data value =
      if (settings data (sec, key)).isSome = true then .ok data else assign sec key data value := by
  rw [setDefault, assign, member_eq_entry h.1, ok_bind, isMember_eq_entry h.2, ok_bind,
    settings_eq_entry]
  rfl

theorem setDefault_shaped {value : Json} (h : setDefault sec key data value = .ok data') :
    Shaped data sec := by
  obtain ⟨cfg, hcfg, h⟩ := bind_eq_ok.mp h
  obtain ⟨b, hb, -⟩ := bind_eq_ok.mp h
  have hdata := object_of_member hcfg
  rw [member_eq_entry hdata] at hcfg
  cases hcfg
  exact ⟨hdata, object_of_isMember hb⟩

theorem setDefault_spec (h : Shaped data sec) (key : String) (value : Json) :
    ∃ data', setDefault sec key data value = .ok data' ∧
      settings data' = fill (settings data) ((sec, key), value) ∧ Keeps [sec] data data' := by
  rw [setDefault_eq sec key data value h]
  split
  · next hsome => exact ⟨data, rfl, (fill_of_isSome hsome).symm, .refl _ _⟩
  · next hnone =>
    obtain ⟨data', hassign, hsettings, hkeeps⟩ := assign_spec h key value
    refine ⟨data', hassign, ?_, hkeeps⟩
    rw [hsettings]
    funext k
    rw [fill]
    by_cases hk : k = (sec, key)
    · subst hk
      rw [Function.update_self, Option.not_isSome_iff_eq_none.mp hnone]
      simp
    · rw [Function.update_of_ne hk, if_neg hk, Option.or_none]

/-- The defaults of a section as settings. -/
def sectionDefaults (sec : String) (ds : List (String × Json)) : List ((String × String) × Json) :=
  ds.map fun d => ((sec, d.1), d.2)

theorem Keeps.again (h : Keeps [sec] data data') (h' : Keeps [sec] data' data'') :
    Keeps [sec] data data'' := by
  refine ⟨fun name hname => ?_, fun s => (h'.shaped s).trans (h.shaped s), h'.object.trans h.object⟩
  rw [h'.entries name hname, h.entries name hname]

theorem setDefaults_spec (h : Shaped data sec) (ds : List (String × Json)) :
    ∃ data', setDefaults sec ds data = .ok data' ∧
      settings data' = (sectionDefaults sec ds).foldl fill (settings data) ∧
      Keeps [sec] data data' := by
  unfold setDefaults
  induction ds generalizing data with
  | nil => exact ⟨data, rfl, rfl, .refl _ _⟩
  | cons d ds ih =>
      obtain ⟨m, hm, hsettings, hkeeps⟩ := setDefault_spec h d.1 d.2
      obtain ⟨data', hdata', hsettings', hkeeps'⟩ := ih ((hkeeps.shaped sec).mpr h)
      refine ⟨data', foldlM_cons_eq_ok.mpr ⟨m, hm, hdata'⟩, ?_, hkeeps.again hkeeps'⟩
      rw [hsettings', hsettings]
      rfl

theorem setDefaults_shaped (hds : ds ≠ []) (h : setDefaults sec ds data = .ok data') :
    Shaped data sec := by
  cases ds with
  | nil => exact absurd rfl hds
  | cons d ds =>
      obtain ⟨m, hm, -⟩ := foldlM_cons_eq_ok.mp h
      exact setDefault_shaped hm

/-- Defaults of settings that are there change nothing. -/
theorem setDefaults_self (h : ∀ d ∈ ds, (settings data (sec, d.1)).isSome = true) :
    setDefaults sec ds data = .ok data := by
  unfold setDefaults
  apply foldlM_eq_ok_self
  intro d hd
  have hsome := h d hd
  rw [setDefault_eq sec d.1 data d.2 (shaped_of_settings hsome), if_pos hsome]

theorem addSection_spec (h : data.object.isSome = true) (sec : String) :
    ∃ data', addSection sec data = .ok data' ∧ settings data' = settings data ∧
      Keeps [sec] data data' ∧ (data'.entry sec).isSome = true := by
  rw [addSection, isMember_eq_entry h, ok_bind]
  split
  · next hsome => exact ⟨data, rfl, rfl, .refl _ _, hsome⟩
  · next hnone =>
    obtain ⟨members, hmembers⟩ := Option.isSome_iff_exists.mp h
    have hnew : data.entry sec = none := Option.not_isSome_iff_eq_none.mp hnone
    have hentry (name : String) : (Json.obj (put sec (.obj []) members)).entry name =
        if name = sec then some (.obj []) else data.entry name := by
      rw [Json.entry, Json.object, Option.bind_some, lookup_put, Json.entry, hmembers]
      rfl
    refine ⟨_, set_of_object hmembers sec _, ?_, ⟨fun name hname => ?_, fun name => ?_, ?_⟩, ?_⟩
    · funext k
      obtain ⟨s, k⟩ := k
      rw [settings_eq_entry, settings_eq_entry, hentry]
      by_cases hs : s = sec
      · subst hs
        rw [if_pos rfl, hnew]
        rfl
      · rw [if_neg hs]
    · rw [hentry, if_neg (by simpa using hname)]
    · unfold Shaped
      rw [hentry, h]
      by_cases hname : name = sec
      · subst hname
        rw [if_pos rfl, hnew]
        rfl
      · rw [if_neg hname]
        rfl
    · rw [h]
      rfl
    · rw [hentry, if_pos rfl]
      rfl

theorem addSection_self (h : (data.entry sec).isSome = true) : addSection sec data = .ok data := by
  have hobject : data.object.isSome = true := by
    obtain ⟨w, hw⟩ := Option.isSome_iff_exists.mp h
    obtain ⟨members, hmembers, -⟩ := Option.bind_eq_some_iff.mp hw
    exact Option.isSome_iff_exists.mpr ⟨members, hmembers⟩
  rw [addSection, isMember_eq_entry hobject, ok_bind, h]
  rfl

theorem addSection_object (h : addSection sec data = .ok data') : data.object.isSome = true := by
  obtain ⟨b, hb, -⟩ := bind_eq_ok.mp h
  exact object_of_isMember hb

end steps

/-! ### What the start makes of a file -/

/-- The configuration that the file gives; without a file it is null. -/
def ConfigFile.read : ConfigFile → Option Json
  | .absent => some .null
  | .unparsable => none
  | .value v => some v

/-- The defaults of all sections. -/
def allDefaults (p : Paths) : List ((String × String) × Json) :=
  sectionDefaults "backend" (backendDefaults p) ++ (sectionDefaults "db" dbDefaults ++
    (sectionDefaults "log" (logDefaults p) ++ sectionDefaults "alerters" (alerterDefaults p)))

/-- The settings of a file with the defaults of those that it lacks. -/
def filled (p : Paths) (v : Json) (k : String × String) : Option Json :=
  (settings v k).or ((allDefaults p).lookup k)

def filledValue (p : Paths) (v : Json) (sec key : String) : Json :=
  (filled p v (sec, key)).getD .null

/-- The level that the log is set to. -/
def levelSet (p : Paths) (v : Json) : ℕ :=
  levelOf ((filledValue p v "log" "level").asString.toOption.getD "")

/-- The sections that the start may write. -/
def writtenSections : List String := ["backend", "db", "log", "alerters", "aggregate"]

/-- Every setting of the file is kept and every one that it lacks has its default, the level of the
log has the name by which it is known, and nothing else is changed. -/
structure Filled (p : Paths) (v data : Json) : Prop where
  value : ∀ k, k ≠ ("log", "level") → settings data k = filled p v k
  level : settings data ("log", "level") = some (.str (levelName (levelSet p v)))
  others : ∀ name, name ∉ writtenSections → data.entry name = v.entry name

section stages

variable {p : Paths} {answers : StartAnswers} {data data' v : Json} {sec s key : String}
  {ds : List (String × Json)}

theorem lookup_sectionDefaults (sec s key : String) (ds : List (String × Json)) :
    (sectionDefaults sec ds).lookup (s, key) = if s = sec then ds.lookup key else none := by
  induction ds with
  | nil => simp [sectionDefaults]
  | cons d ds ih =>
      obtain ⟨k, w⟩ := d
      rw [sectionDefaults, List.map_cons, lookup_cons, lookup_cons, ← sectionDefaults, ih]
      by_cases hs : s = sec
      · by_cases hk : key = k <;> simp [hs, hk]
      · simp [hs]

theorem readSetting_of_isSome (h : (settings data (sec, key)).isSome = true) :
    readSetting sec key data = .ok ((settings data (sec, key)).getD .null) := by
  obtain ⟨w, hw⟩ := Option.isSome_iff_exists.mp h
  rw [readSetting_of_settings hw, hw, Option.getD_some]

/-- The end of the constructor of `log`. -/
theorem Log.make_eq (p : Paths) (data : Json) : Log.make p data = do
    let data ← setDefaults "log" (logDefaults p) data
    let name ← (← readSetting "log" "level" data).asString
    return (levelOf name, ← assign "log" "level" data (.str (levelName (levelOf name)))) := by
  simp only [Log.make, assign, bind_assoc]

/-- A default of another section is no default. -/
theorem lookup_allDefaults (p : Paths) (s key : String) :
    (allDefaults p).lookup (s, key) =
      (if s = "backend" then (backendDefaults p).lookup key else none).or
        ((if s = "db" then dbDefaults.lookup key else none).or
          ((if s = "log" then (logDefaults p).lookup key else none).or
            (if s = "alerters" then (alerterDefaults p).lookup key else none))) := by
  simp only [allDefaults, List.lookup_append, lookup_sectionDefaults]

theorem readSetting_filled (h : settings data (sec, key) = filled p v (sec, key))
    (hkey : ((allDefaults p).lookup (sec, key)).isSome = true) :
    readSetting sec key data = .ok (filledValue p v sec key) := by
  obtain ⟨w, hw⟩ := Option.isSome_iff_exists.mp hkey
  have hsome : (settings data (sec, key)).isSome = true := by
    rw [h, filled, hw]
    simp
  rw [readSetting_of_isSome hsome, h, filledValue]

/-- What `configure` reads of settings that are filled up. -/
def configureReads (p : Paths) (answers : StartAnswers) (v data : Json) :
    Except Ending (Launch × Connections) := do
  let poolSize ← orThrow ⟨0, 0⟩ (filledValue p v "db" "pool_size").asInt
  let _ ← orThrow ⟨0, 0⟩ (filledValue p v "log" "level").asString
  let c : Launch := ⟨levelSet p v, toUnsigned poolSize, data⟩
  let _ ← orThrow ⟨0, 0⟩ (filledValue p v "alerters" "alerter_cpp").asString
  let s ← takeSteps c ⟨0, 0⟩ answers.cpp
  let _ ← orThrow s (filledValue p v "alerters" "alerter_lua").asString
  let s ← takeSteps c s answers.lua
  return (c, s)

theorem configure_eq (p : Paths) (answers : StartAnswers)
    (h : ∀ sec ∈ ["backend", "db", "log", "alerters"], Shaped v sec) :
    ∃ data, Filled p v data ∧
      configure p answers (.value v) = configureReads p answers v data := by
  obtain ⟨hbackend, hdb, hlog, halerters⟩ : Shaped v "backend" ∧ Shaped v "db" ∧ Shaped v "log" ∧
      Shaped v "alerters" := by simpa using h
  obtain ⟨d₁, hd₁, hs₁, hk₁⟩ := setDefaults_spec hbackend (backendDefaults p)
  obtain ⟨d₂, hd₂, hs₂, hk₂, -⟩ := addSection_spec (hk₁.object ▸ hbackend.1) "db"
  obtain ⟨d₃, hd₃, hs₃, hk₃⟩ :=
    setDefaults_spec ((hk₂.shaped _).mpr ((hk₁.shaped _).mpr hdb)) dbDefaults
  have hk₁₃ : Keeps ["backend", "db"] v d₃ := hk₁.trans (hk₂.again hk₃)
  obtain ⟨d₄, hd₄, hs₄, hk₄, -⟩ := addSection_spec (hk₁₃.object ▸ hbackend.1) "log"
  obtain ⟨d₅, hd₅, hs₅, hk₅⟩ :=
    setDefaults_spec ((hk₄.shaped _).mpr ((hk₁₃.shaped _).mpr hlog)) (logDefaults p)
  have hk₄₅ := hk₄.again hk₅
  obtain ⟨d₆, hd₆, hs₆, hk₆⟩ := assign_spec ((hk₄₅.shaped _).mpr ((hk₁₃.shaped _).mpr hlog)) "level"
    (.str (levelName (levelSet p v)))
  have hk₁₆ := hk₁₃.trans (hk₄₅.again hk₆)
  obtain ⟨d₇, hd₇, hs₇, hk₇, -⟩ := addSection_spec (hk₁₆.object ▸ hbackend.1) "alerters"
  obtain ⟨d₈, hd₈, hs₈, hk₈⟩ :=
    setDefaults_spec ((hk₇.shaped _).mpr ((hk₁₆.shaped _).mpr halerters)) (alerterDefaults p)
  have hk₁₈ := hk₁₆.trans (hk₇.again hk₈)
  have hf₃ (s key : String) : settings d₃ (s, key) = ((settings v (s, key)).or
      (if s = "backend" then (backendDefaults p).lookup key else none)).or
        (if s = "db" then dbDefaults.lookup key else none) := by
    rw [hs₃, foldl_fill, hs₂, hs₁, foldl_fill, lookup_sectionDefaults, lookup_sectionDefaults]
  have hf₅ (s key : String) : settings d₅ (s, key) = (settings d₃ (s, key)).or
      (if s = "log" then (logDefaults p).lookup key else none) := by
    rw [hs₅, foldl_fill, hs₄, lookup_sectionDefaults]
  have hf₈ (s key : String) (hk : (s, key) ≠ ("log", "level")) :
      settings d₈ (s, key) = filled p v (s, key) := by
    rw [hs₈, foldl_fill, hs₇, hs₆, Function.update_of_ne hk, hf₅, hf₃, lookup_sectionDefaults,
      filled, lookup_allDefaults]
    simp only [Option.or_assoc]
  have hpool : readSetting "db" "pool_size" d₃ = .ok (filledValue p v "db" "pool_size") := by
    apply readSetting_filled
    · rw [hf₃, filled, lookup_allDefaults]
      simp
    · simp [lookup_allDefaults, dbDefaults, lookup_cons]
  have hlevel : readSetting "log" "level" d₅ = .ok (filledValue p v "log" "level") := by
    apply readSetting_filled
    · rw [hf₅, hf₃, filled, lookup_allDefaults]
      simp
    · simp [lookup_allDefaults, logDefaults, lookup_cons]
  have halerter : ∀ key ∈ ["alerter_cpp", "alerter_lua"],
      readSetting "alerters" key d₈ = .ok (filledValue p v "alerters" key) := by
    intro key hkey
    apply readSetting_filled
    · exact hf₈ _ _ (by simp)
    · rw [lookup_allDefaults]
      fin_cases hkey <;> simp [alerterDefaults, lookup_cons]
  refine ⟨d₈, ⟨fun k hk => hf₈ k.1 k.2 hk, ?_, ?_⟩, ?_⟩
  · rw [hs₈, foldl_fill, hs₇, hs₆, Function.update_self]
    rfl
  · intro name hname
    have hsub : (["backend", "db"] ++ ["log"]) ++ ["alerters"] ⊆ writtenSections := by
      decide
    exact hk₁₈.entries name fun hmem => hname (hsub hmem)
  · rw [configure, openLog, Config.make]
    simp only [pure_eq_ok, ok_bind, hd₁, Config.getDB, hd₂, hd₃, hpool, Config.getLog, hd₄,
      Log.make_eq, hd₅, hlevel, Config.getAlerter, AlerterManager.make]
    rw [configureReads]
    cases (filledValue p v "db" "pool_size").asInt with
    | error e => rfl
    | ok poolSize =>
        cases hname : (filledValue p v "log" "level").asString with
        | error e => rfl
        | ok name =>
            have hset : levelOf name = levelSet p v := by
              simp [levelSet, hname, Except.toOption]
            simp only [orThrow_ok, ok_bind, hset, hd₆, hd₇, hd₈, halerter "alerter_cpp" (by simp),
              halerter "alerter_lua" (by simp), pure_eq_ok]

theorem setDefaults_keeps (hds : ds ≠ []) (h : setDefaults sec ds data = .ok data') :
    Shaped data sec ∧ ∀ s, Shaped data' s ↔ Shaped data s := by
  have hshaped := setDefaults_shaped hds h
  obtain ⟨d, hd, -, hkeeps⟩ := setDefaults_spec hshaped ds
  rw [hd] at h
  cases h
  exact ⟨hshaped, hkeeps.shaped⟩

theorem addSection_keeps (h : addSection sec data = .ok data') (s : String) :
    Shaped data' s ↔ Shaped data s := by
  obtain ⟨d, hd, -, hkeeps, -⟩ := addSection_spec (addSection_object h) sec
  rw [hd] at h
  cases h
  exact hkeeps.shaped s

theorem Log.make_keeps {level : ℕ} (h : Log.make p data = .ok (level, data')) :
    Shaped data "log" ∧ ∀ s, Shaped data' s ↔ Shaped data s := by
  rw [Log.make_eq] at h
  obtain ⟨d, hd, h⟩ := bind_eq_ok.mp h
  obtain ⟨w, -, h⟩ := bind_eq_ok.mp h
  obtain ⟨name, -, h⟩ := bind_eq_ok.mp h
  obtain ⟨d', hd', h⟩ := bind_eq_ok.mp h
  cases h
  obtain ⟨hshaped, hiff⟩ := setDefaults_keeps (by simp [logDefaults]) hd
  obtain ⟨e, he, -, hkeeps⟩ :=
    assign_spec ((hiff _).mpr hshaped) "level" (.str (levelName (levelOf name)))
  rw [he] at hd'
  cases hd'
  exact ⟨hshaped, fun s => (hkeeps.shaped s).trans (hiff s)⟩

theorem openLog_shaped {n : ℤ} {level : ℕ} (h : openLog p (.value v) = .ok (n, level, data)) :
    (∀ sec ∈ ["backend", "db", "log"], Shaped v sec) ∧ ∀ s, Shaped data s ↔ Shaped v s := by
  rw [openLog, Config.make] at h
  simp only [pure_eq_ok, ok_bind] at h
  obtain ⟨d₁, hd₁, h⟩ := bind_eq_ok.mp h
  obtain ⟨hbackend, hk₁⟩ := setDefaults_keeps (by simp [backendDefaults]) hd₁
  obtain ⟨d₃, hd₃, h⟩ := bind_eq_ok.mp h
  obtain ⟨d₂, hd₂, hd₃⟩ := bind_eq_ok.mp hd₃
  obtain ⟨hdb, hk₃⟩ := setDefaults_keeps (by simp [dbDefaults]) hd₃
  have hk₂ := addSection_keeps hd₂
  obtain ⟨w, -, h⟩ := bind_eq_ok.mp h
  obtain ⟨n', -, h⟩ := bind_eq_ok.mp h
  obtain ⟨d₄, hd₄, h⟩ := bind_eq_ok.mp h
  have hk₄ := addSection_keeps hd₄
  obtain ⟨⟨level', d₆⟩, hd₆, h⟩ := bind_eq_ok.mp h
  obtain ⟨hlog, hk₆⟩ := Log.make_keeps hd₆
  obtain ⟨d₇, hd₇, h⟩ := bind_eq_ok.mp h
  have hk₇ := addSection_keeps hd₇
  cases h
  simp only [hk₁, hk₂, hk₃, hk₄] at hdb hlog
  simp only [List.forall_mem_cons]
  exact ⟨⟨hbackend, hdb, hlog, by simp⟩, fun s => by simp only [hk₁, hk₂, hk₃, hk₄, hk₆, hk₇]⟩

/-- A configuration is read from an object whose sections are objects. -/
theorem configure_shaped {r : Launch × Connections} (h : configure p answers (.value v) = .ok r) :
    ∀ sec ∈ ["backend", "db", "log", "alerters"], Shaped v sec := by
  obtain ⟨⟨n, level, d₇⟩, hopen, h⟩ := bind_eq_ok.mp h
  obtain ⟨hsecs, hk₇⟩ := openLog_shaped (orThrow_eq_ok.mp hopen)
  obtain ⟨d₈, hd₈, -⟩ := bind_eq_ok.mp h
  obtain ⟨halerters, -⟩ := setDefaults_keeps (by simp [alerterDefaults]) (orThrow_eq_ok.mp hd₈)
  simp only [List.forall_mem_cons] at hsecs ⊢
  exact ⟨hsecs.1, hsecs.2.1, hsecs.2.2.1, (hk₇ _).mp halerters, by simp⟩

theorem configure_read {file : ConfigFile} (h : file.read = some v) :
    configure p answers file = configure p answers (.value v) := by
  cases file with
  | absent =>
      cases h
      rfl
  | unparsable => cases h
  | value w =>
      cases h
      rfl

theorem configureReads_eq_ok {c : Launch} {t : Connections} :
    configureReads p answers v data = .ok (c, t) ↔
      ∃ n, (filledValue p v "db" "pool_size").asInt = .ok n ∧
        c = ⟨levelSet p v, toUnsigned n, data⟩ ∧
        Succeeds (filledValue p v "log" "level").asString ∧
        Succeeds (filledValue p v "alerters" "alerter_cpp").asString ∧
        Succeeds (filledValue p v "alerters" "alerter_lua").asString ∧
        takeSteps c ⟨0, 0⟩ (answers.cpp ++ answers.lua) = .ok t := by
  simp only [configureReads, bind_eq_ok, orThrow_eq_ok, pure_eq_ok, Except.ok.injEq, Prod.mk.injEq,
    takeSteps_append]
  constructor
  · rintro ⟨n, hn, level, hlevel, cpp, hcpp, s, hs, lua, hlua, t', ht, rfl, rfl⟩
    exact ⟨n, hn, rfl, ⟨level, hlevel⟩, ⟨cpp, hcpp⟩, ⟨lua, hlua⟩, s, hs, ht⟩
  · rintro ⟨n, hn, rfl, ⟨level, hlevel⟩, ⟨cpp, hcpp⟩, ⟨lua, hlua⟩, s, hs, ht⟩
    exact ⟨n, hn, level, hlevel, cpp, hcpp, s, hs, lua, hlua, t, ht, rfl, rfl⟩

theorem configure_filled {c : Launch} {t : Connections} {file : ConfigFile}
    (h : configure p answers file = .ok (c, t)) :
    ∃ v, file.read = some v ∧ (∀ sec ∈ ["backend", "db", "log", "alerters"], Shaped v sec) ∧
      configureReads p answers v c.data = .ok (c, t) ∧ Filled p v c.data := by
  obtain ⟨v, hread⟩ : ∃ v, file.read = some v := by
    cases file with
    | absent => exact ⟨.null, rfl⟩
    | unparsable => cases h
    | value v => exact ⟨v, rfl⟩
  rw [configure_read hread] at h
  have hshaped := configure_shaped h
  obtain ⟨data', hfilled, heq⟩ := configure_eq p answers hshaped
  rw [heq] at h
  obtain ⟨n, -, hc, -⟩ := configureReads_eq_ok.mp h
  have hdata : c.data = data' := by rw [hc]
  exact ⟨v, hread, hshaped, hdata ▸ h, hdata ▸ hfilled⟩

/-! What is read on the way depends on the file only through its settings. -/

theorem Filled.reads (h : Filled p v data) (hkey : ((allDefaults p).lookup (sec, key)).isSome = true)
    (hne : (sec, key) ≠ ("log", "level")) :
    readSetting sec key data = .ok (filledValue p v sec key) :=
  readSetting_filled (h.value _ hne) hkey

theorem Filled.logFile_eq (h : Filled p v data) :
    logFile data = (filledValue p v "log" "file").asString := by
  rw [logFile, h.reads (by simp [lookup_allDefaults, logDefaults]) (by simp), ok_bind]

theorem Filled.succeeds_dbPoolCreate (h : Filled p v data) : Succeeds (dbPoolCreate data) ↔
    ∀ key ∈ connectionTexts, Succeeds (filledValue p v "db" key).asCString := by
  rw [dbPoolCreate, succeeds_forM]
  refine forall₂_congr fun key hkey => ?_
  have hdefault : ((allDefaults p).lookup ("db", key)).isSome = true := by
    rw [lookup_allDefaults]
    fin_cases hkey <;> simp [dbDefaults, lookup_cons]
  rw [h.reads hdefault (by simp), ok_bind, succeeds_bind_pure]

/-- The names of the certificates can be read. -/
def certificatesRead (p : Paths) (v : Json) : Bool :=
  certificateTexts.all fun key => (filledValue p v "backend" key).asString.toOption.isSome

theorem Filled.succeeds_httpClient (h : Filled p v data) :
    Succeeds (HttpClient.make data) ↔ certificatesRead p v = true := by
  rw [HttpClient.make, succeeds_forM, certificatesRead, List.all_eq_true]
  refine forall₂_congr fun key hkey => ?_
  have hdefault : ((allDefaults p).lookup ("backend", key)).isSome = true := by
    rw [lookup_allDefaults]
    fin_cases hkey <;> simp [backendDefaults, lookup_cons]
  rw [h.reads hdefault (by simp), ok_bind, succeeds_bind_pure, succeeds_iff_isSome]

/-- The section that is added last. -/
theorem Filled.addAggregate (h : Filled p v data) (hdata : addSection "aggregate" data = .ok data') :
    Filled p v data' := by
  obtain ⟨d, hd, hsettings, hkeeps, -⟩ := addSection_spec (addSection_object hdata) "aggregate"
  rw [hd] at hdata
  cases hdata
  refine ⟨fun k hk => ?_, ?_, fun name hname => ?_⟩
  · rw [hsettings]
    exact h.value k hk
  · rw [hsettings]
    exact h.level
  · rw [hkeeps.entries name fun hmem => hname (by simp_all [writtenSections])]
    exact h.others name hname

theorem Filled.object (h : Filled p v data) : data.object.isSome = true :=
  (shaped_of_settings (Option.isSome_iff_exists.mpr ⟨_, h.level⟩)).1

theorem initAgents_data {c : Launch} {t : Connections} (h : initAgents answers c t = .ok data') :
    addSection "aggregate" c.data = .ok data' := by
  obtain ⟨d, hd, h⟩ := bind_eq_ok.mp h
  obtain ⟨_, -, h⟩ := bind_eq_ok.mp h
  obtain ⟨_, -, h⟩ := bind_eq_ok.mp h
  obtain ⟨_, -, h⟩ := bind_eq_ok.mp h
  obtain ⟨_, -, h⟩ := bind_eq_ok.mp h
  obtain ⟨_, -, h⟩ := bind_eq_ok.mp h
  cases h
  exact orThrow_eq_ok.mp hd

/-- The steps after the first `save`. -/
def StartAnswers.initSteps (answers : StartAnswers) (certificates : Bool) : List StartStep :=
  .grab answers.kept :: (answers.backend ++ (agentsRun certificates answers.agents ++
    (answers.closing ++ [.release, .message .notice])))

theorem Filled.succeeds_initAgents {c : Launch} {t : Connections} (h : Filled p v c.data)
    (hmade : t.Made c.data) (answers : StartAnswers) :
    Succeeds (initAgents answers c t) ↔
      (∀ key ∈ connectionTexts, Succeeds (filledValue p v "db" key).asCString) ∧
      Succeeds (filledValue p v "backend" "central_id").asInt ∧
      Smooth c.level c.poolSize (Succeeds (filledValue p v "log" "file").asString) t.used
        (answers.initSteps (certificatesRead p v)) := by
  obtain ⟨data', hdata, -⟩ := addSection_spec h.object "aggregate"
  have hdata' := h.addAggregate hdata
  obtain ⟨c', hc'⟩ : ∃ c' : Launch, c' = { c with data := data' } := ⟨_, rfl⟩
  have hfilled : Filled p v c'.data := hc' ▸ hdata'
  have hsame : Succeeds (dbPoolCreate c'.data) ↔ Succeeds (dbPoolCreate c.data) := by
    rw [hfilled.succeeds_dbPoolCreate, h.succeeds_dbPoolCreate]
  have hmade' : t.Made c'.data := fun hpos => hsame.mpr (hmade hpos)
  have hcentral : readSetting "backend" "central_id" data' =
      .ok (filledValue p v "backend" "central_id") :=
    hdata'.reads (by simp [lookup_allDefaults, backendDefaults, lookup_cons]) (by simp)
  rw [initAgents, Config.getAggregate, hdata, orThrow_ok, ok_bind]
  simp only [hcentral, ok_bind, ← hc']
  by_cases hdb : Succeeds (dbPoolCreate c'.data)
  · have hsmooth : Succeeds (takeSteps c' t (answers.initSteps (certificatesRead p v))) ↔
        Smooth c.level c.poolSize (Succeeds (filledValue p v "log" "file").asString) t.used
          (answers.initSteps (certificatesRead p v)) := by
      rw [succeeds_takeSteps_iff hdb, hfilled.logFile_eq, hc']
    rw [and_iff_right (hfilled.succeeds_dbPoolCreate.mp hdb), ← hsmooth]
    have hclients {s u : Connections} : initClients c' s answers.agents = .ok u ↔
        takeSteps c' s (agentsRun (certificatesRead p v) answers.agents) = .ok u :=
      initClients_eq_ok_iff hdb hfilled.succeeds_httpClient
    rw [StartAnswers.initSteps, takeSteps_cons]
    simp only [Succeeds, takeSteps_append, bind_eq_ok, orThrow_eq_ok, pure_eq_ok, Except.ok.injEq,
      hclients]
    constructor
    · rintro ⟨_, s₁, h₁, s₂, h₂, n, hn, s₃, h₃, s₅, ⟨s₄, h₄, h₅⟩, -⟩
      exact ⟨⟨n, hn⟩, s₅, s₁, h₁, s₂, h₂, s₃, h₃, s₄, h₄, h₅⟩
    · rintro ⟨⟨n, hn⟩, s₅, s₁, h₁, s₂, h₂, s₃, h₃, s₄, h₄, h₅⟩
      exact ⟨data', s₁, h₁, s₂, h₂, n, hn, s₃, h₃, s₅, ⟨s₄, h₄, h₅⟩, rfl⟩
  · refine iff_of_false ?_ fun hall => hdb (hfilled.succeeds_dbPoolCreate.mpr hall.1)
    rintro ⟨data', hinit⟩
    obtain ⟨m, hm, -⟩ := bind_eq_ok.mp hinit
    exact hdb (hmade'.grab hm)

end stages

/-! ### Exactly which starts come to the loop -/

/-- All steps, up to the loop. -/
def StartAnswers.steps (answers : StartAnswers) (certificates : Bool) : List StartStep :=
  (answers.cpp ++ answers.lua) ++ answers.initSteps certificates

/-- What a file must hold, and what the start must meet, so that the backend runs. Certificates
whose names cannot be read keep agents from being initialised, but not the backend from running. -/
structure Startable (p : Paths) (answers : StartAnswers) (v : Json) : Prop where
  shaped : ∀ sec ∈ ["backend", "db", "log", "alerters"], Shaped v sec
  level : Succeeds (filledValue p v "log" "level").asString
  alerterCpp : Succeeds (filledValue p v "alerters" "alerter_cpp").asString
  alerterLua : Succeeds (filledValue p v "alerters" "alerter_lua").asString
  connection : ∀ key ∈ connectionTexts, Succeeds (filledValue p v "db" key).asCString
  centralId : Succeeds (filledValue p v "backend" "central_id").asInt
  steps : ∃ poolSize, (filledValue p v "db" "pool_size").asInt = .ok poolSize ∧
    Smooth (levelSet p v) (toUnsigned poolSize)
      (Succeeds (filledValue p v "log" "file").asString) 0 (answers.steps (certificatesRead p v))

theorem start_running_isSome {p : Paths} {answers : StartAnswers} {file : ConfigFile} :
    (start p answers file).running.isSome = true ↔
      ∃ c t, configure p answers file = .ok (c, t) ∧ Succeeds (initAgents answers c t) := by
  unfold start
  cases configure p answers file with
  | error e => simp
  | ok r =>
      obtain ⟨c, t⟩ := r
      dsimp only
      cases h : initAgents answers c t with
      | error e => simp [h]
      | ok d => simp [h]

/-- A start comes to its loop exactly if the file can be read, has what is read of it on the way, and
every step goes through. -/
theorem start_iff (p : Paths) (answers : StartAnswers) (file : ConfigFile) :
    (start p answers file).running.isSome = true ↔
      ∃ v, file.read = some v ∧ Startable p answers v := by
  rw [start_running_isSome]
  constructor
  · rintro ⟨c, t, hconfigure, hinit⟩
    obtain ⟨v, hread, hshaped, hreads, hfilled⟩ := configure_filled hconfigure
    obtain ⟨n, hn, hc, hlevel, hcpp, hlua, hrun⟩ := configureReads_eq_ok.mp hreads
    have hmade : t.Made c.data := (Connections.made_none _).run hrun
    obtain ⟨hconnection, hcentral, hsteps⟩ := (hfilled.succeeds_initAgents hmade answers).mp hinit
    have hdb := hfilled.succeeds_dbPoolCreate.mpr hconnection
    have hfirst := (succeeds_takeSteps_iff hdb).mp ⟨t, hrun⟩
    rw [hfilled.logFile_eq] at hfirst
    rw [takeSteps_used hrun] at hsteps
    refine ⟨v, hread, hshaped, hlevel, hcpp, hlua, hconnection, hcentral, n, hn, ?_⟩
    rw [hc] at hfirst hsteps
    exact smooth_append.mpr ⟨hfirst, hsteps⟩
  · rintro ⟨v, hread, hv⟩
    obtain ⟨n, hn, hsteps⟩ := hv.steps
    obtain ⟨hfirst, hlast⟩ := smooth_append.mp hsteps
    obtain ⟨data, hfilled, heq⟩ := configure_eq p answers hv.shaped
    have hdb := hfilled.succeeds_dbPoolCreate.mpr hv.connection
    rw [← hfilled.logFile_eq] at hfirst
    obtain ⟨c, hc⟩ : ∃ c : Launch, c = ⟨levelSet p v, toUnsigned n, data⟩ := ⟨_, rfl⟩
    obtain ⟨hlevel, hsize, hdata⟩ : c.level = levelSet p v ∧ c.poolSize = toUnsigned n ∧
        c.data = data := by simp [hc]
    rw [← hdata] at hfilled hdb heq hfirst
    rw [← hlevel, ← hsize] at hfirst hlast
    obtain ⟨t, hrun⟩ := (succeeds_takeSteps_iff (s := ⟨0, 0⟩) hdb).mpr hfirst
    rw [← takeSteps_used (s := ⟨0, 0⟩) hrun] at hlast
    have hreads := configureReads_eq_ok.mpr
      ⟨n, hn, hdata ▸ hc, hv.level, hv.alerterCpp, hv.alerterLua, hrun⟩
    rw [← heq, ← configure_read hread] at hreads
    have hmade : t.Made c.data := (Connections.made_none _).run hrun
    exact ⟨c, t, hreads, (hfilled.succeeds_initAgents hmade answers).mpr
      ⟨hv.connection, hv.centralId, hlast⟩⟩

def builtPaths : Paths :=
  ⟨"/etc/watched/ssl/key.pem", "/etc/watched/ssl/cert.pem", "/etc/watched/ssl/ca.pem",
    "/var/log/watched/back.log", "/usr/lib/watched/alerters", "/usr/share/watched/alerters"⟩

/-- A Lua alerter and an agent, and everything succeeds. -/
def goodStart : StartAnswers where
  cpp := []
  lua := [.grab 0]
  kept := 0
  backend := []
  agents := [.step (.grab 0), .client, .step .release, .step (.message .info)]
  closing := []

/-- A password that is a number. -/
example : (start builtPaths goodStart (.value (.obj [("db", .obj [("password", .int 1234)])]))).running
    |>.isNone := by
  decide +kernel

/-- A certificate without a name, which only the agents need. -/
example : (start builtPaths goodStart (.value (.obj [("backend", .obj [("SSL_key", .arr [])])]))).running
    |>.isSome := by
  decide +kernel

/-- The alerter and the backend have a connection each when the agent waits for a third. -/
example : (start builtPaths goodStart (.value (.obj [("db", .obj [("pool_size", .int 1)])]))).running
    |>.isNone := by
  decide +kernel

/-! ### Any number of starts -/

/-- Each start is that of a program built with its own paths, and meets its own answers. -/
def starts (file : ConfigFile) (runs : List (Paths × StartAnswers)) : ConfigFile :=
  runs.foldl (fun file r => (start r.1 r.2 file).file) file

theorem levelOf_levelName {level : ℕ} (h : level ≤ 6) : levelOf (levelName level) = level := by
  interval_cases level <;> decide

theorem levelOf_le (name : String) : levelOf name ≤ 6 := by
  have hlevels : ∀ l ∈ levels.zipIdx, l.2 ≤ 6 := by decide
  apply foldl_invariant (P := fun level : ℕ => level ≤ 6)
  · intro level l hl hle
    split
    · exact hlevels l hl
    · exact hle
  · decide

theorem levelOf_levelSet (p : Paths) (v : Json) : levelOf (levelName (levelSet p v)) = levelSet p v :=
  levelOf_levelName (levelOf_le _)

section again

variable {p q : Paths} {answers : StartAnswers} {v data data' : Json} {level : ℕ} {sec key : String}

/-- Every setting with a default has a value. -/
theorem Filled.isSome (h : Filled p v data) (sec key : String)
    (hkey : ((allDefaults p).lookup (sec, key)).isSome = true) :
    (settings data (sec, key)).isSome = true := by
  by_cases hlevel : (sec, key) = ("log", "level")
  · rw [hlevel, h.level]
    rfl
  · obtain ⟨w, hw⟩ := Option.isSome_iff_exists.mp hkey
    rw [h.value _ hlevel, filled, hw]
    simp

/-- The keys of the defaults are those of any other build. -/
theorem Filled.noDefaults (h : Filled p v data) :
    setDefaults "backend" (backendDefaults q) data = .ok data ∧
    setDefaults "db" dbDefaults data = .ok data ∧
    setDefaults "log" (logDefaults q) data = .ok data ∧
    setDefaults "alerters" (alerterDefaults q) data = .ok data := by
  refine ⟨?_, ?_, ?_, ?_⟩
  all_goals
    apply setDefaults_self
    intro d hd
    apply h.isSome
    rw [lookup_allDefaults]
  · simp only [backendDefaults] at hd
    fin_cases hd <;> simp [backendDefaults, lookup_cons]
  · simp only [dbDefaults] at hd
    fin_cases hd <;> simp [dbDefaults, lookup_cons]
  · simp only [logDefaults] at hd
    fin_cases hd <;> simp [logDefaults, lookup_cons]
  · simp only [alerterDefaults] at hd
    fin_cases hd <;> simp [alerterDefaults, lookup_cons]

theorem entry_isSome (h : (settings data (sec, key)).isSome = true) :
    (data.entry sec).isSome = true := by
  obtain ⟨w, hw⟩ := Option.isSome_iff_exists.mp h
  obtain ⟨members, hmembers, -⟩ := Option.bind_eq_some_iff.mp hw
  obtain ⟨cfg, hcfg, -⟩ := Option.bind_eq_some_iff.mp hmembers
  exact Option.isSome_iff_exists.mpr ⟨cfg, hcfg⟩

/-- A configuration that is filled up is filled up by no start again. -/
theorem Filled.configure_self {c : Launch} {t : Connections} (h : Filled p v data)
    (hc : configure q answers (.value data) = .ok (c, t)) : c.data = data := by
  obtain ⟨hbackend, hdb, hlog, halerters⟩ := h.noDefaults (q := q)
  have hname : readSetting "log" "level" data = .ok (.str (levelName (levelSet p v))) :=
    readSetting_of_settings h.level
  have htext : (Json.str (levelName (levelSet p v))).asString = .ok (levelName (levelSet p v)) := rfl
  have hassign : assign "log" "level" data (.str (levelName (levelSet p v))) = .ok data :=
    assign_self h.level
  have hdbSection : addSection "db" data = .ok data :=
    addSection_self (entry_isSome (h.isSome "db" "login" (by
      simp [lookup_allDefaults, dbDefaults, lookup_cons])))
  have hlogSection : addSection "log" data = .ok data :=
    addSection_self (entry_isSome (h.isSome "log" "file" (by
      simp [lookup_allDefaults, logDefaults])))
  have halertersSection : addSection "alerters" data = .ok data :=
    addSection_self (entry_isSome (h.isSome "alerters" "alerter_lua" (by
      simp [lookup_allDefaults, alerterDefaults, lookup_cons])))
  obtain ⟨⟨n, level, d⟩, hopen, hc⟩ := bind_eq_ok.mp hc
  rw [orThrow_eq_ok, openLog, Config.make] at hopen
  simp only [pure_eq_ok, ok_bind, hbackend, Config.getDB, hdbSection, hdb, Config.getLog,
    hlogSection, Log.make_eq, hlog, hname, htext, levelOf_levelSet, hassign,
    Config.getAlerter, halertersSection] at hopen
  obtain ⟨_, -, hopen⟩ := bind_eq_ok.mp hopen
  obtain ⟨_, -, hopen⟩ := bind_eq_ok.mp hopen
  cases hopen
  simp only [AlerterManager.make, halerters, orThrow_ok, ok_bind] at hc
  obtain ⟨_, -, hc⟩ := bind_eq_ok.mp hc
  obtain ⟨_, -, hc⟩ := bind_eq_ok.mp hc
  obtain ⟨_, -, hc⟩ := bind_eq_ok.mp hc
  obtain ⟨_, -, hc⟩ := bind_eq_ok.mp hc
  cases hc
  rfl

/-- What a start does to a configuration that is filled up. -/
theorem Filled.start_file (h : Filled p v data) (q : Paths) (answers : StartAnswers) :
    ∃ data', (start q answers (.value data)).file = .value data' ∧
      (data' = data ∨ addSection "aggregate" data = .ok data') ∧
      ∀ d, (start q answers (.value data)).running = some d →
        d = data' ∧ addSection "aggregate" data = .ok d := by
  unfold start
  cases hc : configure q answers (.value data) with
  | error e => exact ⟨data, rfl, Or.inl rfl, by simp⟩
  | ok r =>
      obtain ⟨c, t⟩ := r
      have hself := h.configure_self hc
      dsimp only
      rw [hself]
      cases hi : initAgents answers c t with
      | error e => exact ⟨data, rfl, Or.inl rfl, by simp⟩
      | ok d =>
          have hd := initAgents_data hi
          rw [hself] at hd
          refine ⟨d, rfl, Or.inr hd, fun d' hd' => ?_⟩
          cases hd'
          exact ⟨rfl, hd⟩

theorem Filled.starts (h : Filled p v data) (runs : List (Paths × StartAnswers)) :
    ∃ data', starts (.value data) runs = .value data' ∧ Filled p v data' := by
  unfold WatchedBack.starts
  induction runs generalizing data with
  | nil => exact ⟨data, rfl, h⟩
  | cons r runs ih =>
      obtain ⟨d, hd, hsection, -⟩ := h.start_file r.1 r.2
      have hfilled : Filled p v d := by
        rcases hsection with rfl | hsection
        · exact h
        · exact h.addAggregate hsection
      obtain ⟨data', hdata', hfilled'⟩ := ih hfilled
      exact ⟨data', by rw [List.foldl_cons, hd, hdata'], hfilled'⟩

/-- The start comes to its first `save`. -/
def Saves (file : ConfigFile) (r : Paths × StartAnswers) : Prop := Succeeds (configure r.1 r.2 file)

theorem start_not_saves {file : ConfigFile} {r : Paths × StartAnswers} (h : ¬ Saves file r) :
    (start r.1 r.2 file).file = file := by
  unfold start
  cases hc : configure r.1 r.2 file with
  | error e => rfl
  | ok x => exact absurd ⟨x, hc⟩ h

theorem start_saves {file : ConfigFile} {r : Paths × StartAnswers} (h : Saves file r) :
    ∃ v data, file.read = some v ∧ (start r.1 r.2 file).file = .value data ∧ Filled r.1 v data ∧
      ∀ d, (start r.1 r.2 file).running = some d →
        d = data ∧ (data.entry "aggregate").isSome = true := by
  obtain ⟨⟨c, t⟩, hc⟩ := h
  obtain ⟨v, hread, -, -, hfilled⟩ := configure_filled hc
  unfold start
  rw [hc]
  dsimp only
  cases hi : initAgents r.2 c t with
  | error e => exact ⟨v, c.data, hread, rfl, hfilled, by simp⟩
  | ok d =>
      have hd := initAgents_data hi
      refine ⟨v, d, hread, rfl, hfilled.addAggregate hd, fun d' hd' => ?_⟩
      cases hd'
      obtain ⟨e, he, -, -, hentry⟩ := addSection_spec hfilled.object "aggregate"
      cases he.symm.trans hd
      exact ⟨rfl, hentry⟩

end again

/-- After any number of starts of programs built with any paths, each of which may end anywhere, the
file is as it was if none of them came to its first `save`. Else it has every setting that it had,
the defaults of the first that did for those that it lacked, and the level by its own name; whatever
the others were built with. -/
theorem starts_filled (file : ConfigFile) (runs : List (Paths × StartAnswers)) :
    ((∀ r ∈ runs, ¬ Saves file r) ∧ starts file runs = file) ∨
    ∃ before r after v data, runs = before ++ r :: after ∧ (∀ q ∈ before, ¬ Saves file q) ∧
      Saves file r ∧ file.read = some v ∧ starts file runs = .value data ∧ Filled r.1 v data := by
  induction runs with
  | nil => exact Or.inl ⟨by simp, rfl⟩
  | cons r runs ih =>
      have hcons : starts file (r :: runs) = starts (start r.1 r.2 file).file runs := rfl
      by_cases hr : Saves file r
      · obtain ⟨v, data, hread, hfile, hfilled, -⟩ := start_saves hr
        obtain ⟨data', hdata', hfilled'⟩ := hfilled.starts runs
        refine Or.inr ⟨[], r, runs, v, data', rfl, by simp, hr, hread, ?_, hfilled'⟩
        rw [hcons, hfile, hdata']
      · rw [hcons, start_not_saves hr]
        rcases ih with ⟨hnone, hsame⟩ | ⟨before, q, after, v, data, rfl, hbefore, hq, hrest⟩
        · exact Or.inl ⟨List.forall_mem_cons.mpr ⟨hr, hnone⟩, hsame⟩
        · exact Or.inr ⟨r :: before, q, after, v, data, rfl,
            List.forall_mem_cons.mpr ⟨hr, hbefore⟩, hq, hrest⟩

/-- The configuration of a backend that runs is the one in the file, no later start changes the file
again, and each later start that comes to its loop has this configuration too. -/
theorem running_kept {p : Paths} {answers : StartAnswers} {file : ConfigFile} {data : Json}
    (h : (start p answers file).running = some data) (later : List (Paths × StartAnswers)) :
    starts file ((p, answers) :: later) = .value data ∧
    ∀ q answers' d, (start q answers' (.value data)).running = some d → d = data := by
  have hsaves : Saves file (p, answers) := by
    obtain ⟨level, d, hc, -⟩ := start_running_isSome.mp (Option.isSome_iff_exists.mpr ⟨data, h⟩)
    exact ⟨_, hc⟩
  obtain ⟨v, data', -, hfile, hfilled, hrunning⟩ := start_saves hsaves
  obtain ⟨rfl, hentry⟩ := hrunning data h
  have hself := addSection_self hentry
  have hagain (q : Paths) (answers' : StartAnswers) :
      (start q answers' (.value data)).file = .value data ∧
      ∀ d, (start q answers' (.value data)).running = some d → d = data := by
    obtain ⟨d, hd, hsection, hrun⟩ := hfilled.start_file q answers'
    have hsame : d = data := by
      rcases hsection with rfl | hsection
      · rfl
      · cases hself.symm.trans hsection
        rfl
    refine ⟨hsame ▸ hd, fun d' hd' => ?_⟩
    exact (hrun d' hd').1.trans hsame
  refine ⟨?_, fun q answers' => (hagain q answers').2⟩
  rw [starts, List.foldl_cons, hfile]
  apply foldl_invariant (P := fun f : ConfigFile => f = .value data)
  · intro f r hr hf
    rw [hf]
    exact (hagain r.1 r.2).1
  · rfl

/-- Without a file the defaults are the configuration. -/
theorem running_kept_absent :
    ∃ data, (start builtPaths goodStart .absent).running = some data ∧
      starts .absent [(builtPaths, goodStart), (builtPaths, goodStart)] = .value data := by
  have hstart : (start builtPaths goodStart .absent).running.isSome = true := by
    decide +kernel
  obtain ⟨data, hdata⟩ := Option.isSome_iff_exists.mp hstart
  exact ⟨data, hdata, (running_kept hdata [(builtPaths, goodStart)]).1⟩

end WatchedBack
