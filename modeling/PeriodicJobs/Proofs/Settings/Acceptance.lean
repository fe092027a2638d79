import PeriodicJobs.Proofs.Checks
import PeriodicJobs.Proofs.Repetition
import PeriodicJobs.Proofs.Settings.Entries

set_option autoImplicit false

/- Which settings are accepted. The values that a document gives are checked in an order of their
own, each sets its own setting, and with accepted settings no hyperperiod is refused for its
resolution or exceeds the limit. -/
namespace PeriodicJobs

theorem Binary64.isUsable_iff {x : Binary64} : x.IsUsable ↔ x.isFinite = true ∧ .zero < x := by
  refine and_congr_right fun finite => ?_
  rw [le_iff_not_lt (isNumber_of_isFinite finite) rfl, not_not]

theorem Policy.named_eq_elim (name : String) :
    Policy.named name = (ofName? name).elim (.error (.unknownPolicy name)) .ok := by
  rw [named]
  cases ofName? name <;> rfl

theorem Layout.named_eq_elim (name : String) :
    Layout.named name = (ofName? name).elim (.error (.unknownLayout name)) .ok := by
  rw [named]
  cases ofName? name <;> rfl

theorem Settings.checkResolution_eq_ite (tick : Binary64) :
    checkResolution tick =
      if tick.IsUsable then .ok tick else .error (.resolution (.invalidResolution tick)) := by
  rw [checkResolution, Resolution.ofBinary64]
  by_cases usable : tick.IsUsable <;> simp [usable]

namespace GivenSettings

section

variable {α β γ ε : Type} {fault : ε}

theorem ite_isUsable_eq_ok {x y : Binary64} :
    (if x.IsUsable then .ok x else .error fault : Except ε Binary64) = .ok y ↔
      (x.isFinite = true ∧ .zero < x) ∧ y = x := by
  rw [← Binary64.isUsable_iff]
  by_cases usable : x.IsUsable <;> simp [usable, eq_comm]

theorem decides_isUsable {check : Check ε} {x : Binary64}
    (holds : check.Holds ↔ x.isFinite = true ∧ .zero < x) :
    Decides [check] (if x.IsUsable then .ok x else .error check.fault) := by
  rw [← Binary64.isUsable_iff] at holds
  apply decides_check
  · exact fun passed => ⟨x, if_pos (holds.1 passed)⟩
  · exact fun broken => if_neg (mt holds.2 broken)

/-- The value of a setting: its default if nothing is given, and else what the given value means. -/
inductive Takes (means : β → α → Prop) (default : α) : Option β → α → Prop
  | kept : Takes means default none default
  | set {b : β} {a : α} (holds : means b a) : Takes means default (some b) a

theorem Takes.eq_default_or {means : β → α → Prop} {default a : α} {given : Option β}
    (taken : Takes means default given a) : a = default ∨ ∃ b, means b a := by
  cases taken with
  | kept => exact .inl rfl
  | set holds => exact .inr ⟨_, holds⟩

/-- What is given is read, and the result put in the place of a setting. -/
theorem takes_iff {reader : β → Except ε γ} {means : β → α → Prop} (place : Option γ → α)
    (reads : ∀ b a, means b a ↔ ∃ c, reader b = .ok c ∧ place (some c) = a)
    {given : Option β} {a : α} :
    Takes means (place none) given a ↔
      ∃ result, given.mapM reader = .ok result ∧ place result = a := by
  cases given with
  | none =>
    constructor
    · rintro ⟨⟩
      exact ⟨none, rfl, rfl⟩
    · rintro ⟨result, ⟨⟩, rfl⟩
      exact .kept
  | some b =>
    change _ ↔ ∃ result, (reader b).map some = .ok result ∧ place result = a
    simp only [Outcome.map_eq_ok]
    constructor
    · rintro (_ | holds)
      obtain ⟨c, done, placed⟩ := (reads b a).1 holds
      exact ⟨some c, ⟨c, done, rfl⟩, placed⟩
    · rintro ⟨result, ⟨c, done, rfl⟩, placed⟩
      exact .set ((reads b a).2 ⟨c, done, placed⟩)

end

def policyCheck (name : String) : Check SettingsFault :=
  ⟨∃ policy, Policy.ofName? name = some policy, .unknownPolicy name⟩

def layoutCheck (name : String) : Check SettingsFault :=
  ⟨∃ layout, Layout.ofName? name = some layout, .unknownLayout name⟩

def resolutionCheck (tick : Binary64) : Check SettingsFault :=
  ⟨tick.isFinite = true ∧ .zero < tick, .resolution (.invalidResolution tick)⟩

def limitCheck (limit : Binary64) : Check SettingsFault :=
  ⟨limit.isFinite = true ∧ .zero < limit, .invalidLimit limit⟩

/-- The checks on the values that are given, in the order in which they are made. -/
def checks (given : GivenSettings) : List (Check SettingsFault) :=
  given.policy.toList.map policyCheck ++ given.layout.toList.map layoutCheck ++
    given.resolution.toList.map resolutionCheck ++ given.limit.toList.map limitCheck

/-- The settings that the given values make. Each value sets its own setting. -/
structure Sets (given : GivenSettings) (settings : Settings) : Prop where
  policy : Takes (fun name policy => Policy.ofName? name = some policy) .earliestDeadline
    given.policy settings.policy
  layout : Takes (fun name layout => Layout.ofName? name = some layout) .csv
    given.layout settings.layout
  resolution : Takes (fun tick resolution =>
    (tick.isFinite = true ∧ .zero < tick) ∧ resolution = tick) .one
    given.resolution settings.resolution
  limit : Takes (fun limit most => (limit.isFinite = true ∧ .zero < limit) ∧ most = some limit) none
    given.limit settings.limit

theorem decides_policy (name : String) : Decides [policyCheck name] (Policy.named name) := by
  rw [Policy.named_eq_elim]
  exact decides_found Iff.rfl

theorem decides_layout (name : String) : Decides [layoutCheck name] (Layout.named name) := by
  rw [Layout.named_eq_elim]
  exact decides_found Iff.rfl

theorem decides_resolution (tick : Binary64) :
    Decides [resolutionCheck tick] (Settings.checkResolution tick) := by
  rw [Settings.checkResolution_eq_ite]
  exact decides_isUsable Iff.rfl

theorem decides_limit (limit : Binary64) :
    Decides [limitCheck limit] (Settings.checkLimit limit) :=
  decides_isUsable Iff.rfl

theorem decides_checks (given : GivenSettings) : Decides given.checks given.check := by
  have inOrder : Decides (given.policy.toList.map policyCheck ++
      (given.layout.toList.map layoutCheck ++ (given.resolution.toList.map resolutionCheck ++
        (given.limit.toList.map limitCheck ++ [])))) given.check := by
    refine (decides_mapM decides_policy given.policy).bind fun policy _ => ?_
    refine (decides_mapM decides_layout given.layout).bind fun layout _ => ?_
    refine (decides_mapM decides_resolution given.resolution).bind fun resolution _ => ?_
    refine (decides_mapM decides_limit given.limit).bind fun limit _ => ?_
    exact decides_ok _
  simpa only [checks, List.append_assoc, List.append_nil] using inOrder

theorem takes_policy {given : Option String} {policy : Policy} :
    Takes (fun name policy => Policy.ofName? name = some policy) .earliestDeadline given policy ↔
      ∃ result, given.mapM Policy.named = .ok result ∧
        result.getD .earliestDeadline = policy := by
  apply takes_iff (·.getD Policy.earliestDeadline)
  simp [Policy.named_eq_elim, Outcome.elim_eq_ok]

theorem takes_layout {given : Option String} {layout : Layout} :
    Takes (fun name layout => Layout.ofName? name = some layout) .csv given layout ↔
      ∃ result, given.mapM Layout.named = .ok result ∧ result.getD .csv = layout := by
  apply takes_iff (·.getD Layout.csv)
  simp [Layout.named_eq_elim, Outcome.elim_eq_ok]

theorem takes_resolution {given : Option Binary64} {resolution : Binary64} :
    Takes (fun tick resolution => (tick.isFinite = true ∧ .zero < tick) ∧ resolution = tick) .one
        given resolution ↔
      ∃ result, given.mapM Settings.checkResolution = .ok result ∧
        result.getD .one = resolution := by
  apply takes_iff (·.getD Binary64.one)
  simp [Settings.checkResolution_eq_ite, ite_isUsable_eq_ok]

theorem takes_limit {given limit : Option Binary64} :
    Takes (fun limit most => (limit.isFinite = true ∧ .zero < limit) ∧ most = some limit) none
        given limit ↔
      ∃ result, given.mapM Settings.checkLimit = .ok result ∧ result = limit := by
  apply takes_iff id
  intro limit most
  constructor
  · rintro ⟨positive, rfl⟩
    exact ⟨limit, ite_isUsable_eq_ok.2 ⟨positive, rfl⟩, rfl⟩
  · rintro ⟨accepted, done, rfl⟩
    obtain ⟨positive, rfl⟩ := ite_isUsable_eq_ok.1 done
    exact ⟨positive, rfl⟩

variable {given : GivenSettings} {settings : Settings}

theorem check_eq_ok_iff : given.check = .ok settings ↔ given.Sets settings := by
  simp only [check, Outcome.bind_eq_ok]
  constructor
  · rintro ⟨policy, hPolicy, layout, hLayout, resolution, hResolution, limit, hLimit, made⟩
    cases made
    exact ⟨takes_policy.2 ⟨policy, hPolicy, rfl⟩, takes_layout.2 ⟨layout, hLayout, rfl⟩,
      takes_resolution.2 ⟨resolution, hResolution, rfl⟩, takes_limit.2 ⟨limit, hLimit, rfl⟩⟩
  · intro sets
    obtain ⟨policy, hPolicy, samePolicy⟩ := takes_policy.1 sets.policy
    obtain ⟨layout, hLayout, sameLayout⟩ := takes_layout.1 sets.layout
    obtain ⟨resolution, hResolution, sameResolution⟩ := takes_resolution.1 sets.resolution
    obtain ⟨limit, hLimit, sameLimit⟩ := takes_limit.1 sets.limit
    refine ⟨policy, hPolicy, layout, hLayout, resolution, hResolution, limit, hLimit, ?_⟩
    change Except.ok ({
      policy := policy.getD .earliestDeadline
      layout := layout.getD .csv
      resolution := resolution.getD .one
      limit } : Settings) = .ok settings
    rw [samePolicy, sameLayout, sameResolution, sameLimit]

end GivenSettings

namespace Hyperperiod

/-- No hyperperiod exceeds the limit, and that of tasks at rest does not either. -/
theorem value_le_of_limit {resolution : Resolution} {limit : Binary64} {tasks : List Task}
    {h : Hyperperiod} (done : ofTasks resolution (some limit) tasks = .ok h)
    (positive : .zero < limit) : h.value ≤ limit := by
  rcases counted_of_ok done with ⟨_, rfl⟩ | ⟨_, counts, made⟩
  · exact Binary64.le_of_lt positive
  · rw [Binary64.le_iff_not_lt made.isUnsigned_value.isNumber (Binary64.isNumber_of_lt positive).2]
    intro beyond
    have limited := made.limited
    rw [checkLimit, if_pos beyond] at limited
    cases limited

end Hyperperiod

namespace Settings

variable {given : GivenSettings} {settings : Settings}

/-- Settings with which hyperperiods can be calculated: the resolution is usable, and a hyperperiod
that is calculated is within the limit. -/
structure Sound (settings : Settings) : Prop where
  resolution_positive : settings.resolution.isFinite = true ∧ .zero < settings.resolution
  limit_positive : ∀ limit, settings.limit = some limit → limit.isFinite = true ∧ .zero < limit
  resolved : ∃ resolution, Resolution.ofBinary64 settings.resolution = .ok resolution
  limited : ∀ resolution tasks h limit,
    Hyperperiod.ofTasks resolution settings.limit tasks = .ok h → settings.limit = some limit →
      h.value ≤ limit

theorem sound_of_sets (sets : given.Sets settings) : settings.Sound := by
  have resolution : settings.resolution.isFinite = true ∧ .zero < settings.resolution := by
    rcases sets.resolution.eq_default_or with same | ⟨tick, positive, same⟩
    · rw [same]
      decide +kernel
    · rwa [same]
  have limit : ∀ limit, settings.limit = some limit → limit.isFinite = true ∧ .zero < limit := by
    intro most limited
    rcases sets.limit.eq_default_or with same | ⟨limit, positive, same⟩
    · rw [same] at limited
      cases limited
    · rw [same] at limited
      cases limited
      exact positive
  refine ⟨resolution, limit, ⟨⟨_, Binary64.isUsable_iff.2 resolution⟩, dif_pos _⟩, ?_⟩
  intro resolution tasks h most done limited
  rw [limited] at done
  exact Hyperperiod.value_le_of_limit done (limit most limited).2

/-- The values that a text gives decide the settings. They are accepted as what the values mean,
each for its own setting and with a default for what is absent or null, and otherwise refused for
the first value that does not pass, in the order policy, layout, resolution, limit. The order of the
entries makes no difference, and accepted settings are sound. -/
theorem values_decide_settings (text : List Char) :
    (∀ entries, ∀ given : GivenSettings, Yaml.HasEntries text entries → given.AreGivenBy entries →
      (∀ settings, ofText text = .ok settings ↔ given.Sets settings) ∧
        ∀ fault, ofText text = .error fault ↔ FirstFailure given.checks fault) ∧
    ((¬ ∃ entries, ∃ given : GivenSettings,
        Yaml.HasEntries text entries ∧ given.AreGivenBy entries) →
      ofText text = .error .malformed) ∧
    (∀ text' entries entries', Yaml.HasEntries text entries → Yaml.HasEntries text' entries' →
      entries.Perm entries' → ofText text = ofText text') ∧
    ∀ settings, ofText text = .ok settings → settings.Sound := by
  have decided (entries : Yaml.Entries) (given : GivenSettings)
      (has : Yaml.HasEntries text entries) (areGiven : given.AreGivenBy entries) :
      (∀ settings, ofText text = .ok settings ↔ given.Sets settings) ∧
        ∀ fault, ofText text = .error fault ↔ FirstFailure given.checks fault := by
    rw [ofText_of_given has areGiven]
    exact ⟨fun settings => GivenSettings.check_eq_ok_iff, given.decides_checks.error_iff⟩
  refine ⟨decided, ofText_of_not_given, ?_, ?_⟩
  · intro text' entries entries' has has' perm
    rw [ofText_eq has, ofText_eq has', GivenSettings.ofEntries?_perm perm]
  · intro settings done
    by_cases mapping : ∃ entries, ∃ given : GivenSettings,
        Yaml.HasEntries text entries ∧ given.AreGivenBy entries
    · obtain ⟨entries, given, has, areGiven⟩ := mapping
      exact sound_of_sets (((decided entries given has areGiven).1 settings).1 done)
    · rw [ofText_of_not_given mapping] at done
      cases done

/-- Two entries in both orders; an unknown policy behind a limit that is not positive; and a name
that is none of a setting. -/
theorem values_decide_settings_reordered :
    ofText "output_format: initializer\nmax_hyperperiod: 20".toList =
        .ok { layout := .initializer, limit := some (.ofNat 20) } ∧
      ofText "max_hyperperiod: 20\noutput_format: initializer".toList =
        ofText "output_format: initializer\nmax_hyperperiod: 20".toList ∧
      (∀ resolution tasks h, Hyperperiod.ofTasks resolution (some (.ofNat 20)) tasks = .ok h →
        h.value ≤ .ofNat 20) ∧
      ofText "max_hyperperiod: -1\npriority_policy: lottery".toList =
        .error (.unknownPolicy "lottery") ∧
      ofText "priority: edf".toList = .error .malformed := by
  let layout : String × Yaml.Scalar := ("output_format", ⟨.plain, none, "initializer"⟩)
  let limit : String × Yaml.Scalar := ("max_hyperperiod", ⟨.plain, none, "20"⟩)
  have first : Yaml.HasEntries "output_format: initializer\nmax_hyperperiod: 20".toList
      [layout, limit] := by
    unfold Yaml.HasEntries
    decide +kernel
  have second : Yaml.HasEntries "max_hyperperiod: 20\noutput_format: initializer".toList
      [limit, layout] := by
    unfold Yaml.HasEntries
    decide +kernel
  have given : GivenSettings.AreGivenBy
      { layout := some "initializer", limit := some (.ofNat 20) } [layout, limit] := {
    known := by decide
    once := by decide
    policy := .absent (by simp [layout, limit])
    layout := .value (.head _) rfl rfl
    resolution := .absent (by simp [layout, limit])
    limit := .value (.tail _ (.head _)) rfl (by decide +kernel) }
  have accepted := (((values_decide_settings _).1 _ _ first given).1
    { layout := .initializer, limit := some (.ofNat 20) }).2
    ⟨.kept, .set rfl, .kept, .set ⟨by decide +kernel, rfl⟩⟩
  refine ⟨accepted, (values_decide_settings _).2.2.1 _ _ _ second first (.swap _ _ _), ?_, ?_, ?_⟩
  · intro resolution tasks h done
    exact ((values_decide_settings _).2.2.2 _ accepted).limited resolution tasks h _ done rfl
  · have has : Yaml.HasEntries "max_hyperperiod: -1\npriority_policy: lottery".toList
        [("max_hyperperiod", ⟨.plain, none, "-1"⟩),
          ("priority_policy", ⟨.plain, none, "lottery"⟩)] := by
      unfold Yaml.HasEntries
      decide +kernel
    refine (((values_decide_settings _).1 _
      { policy := some "lottery", limit := some (.ofRatio true 1 1) } has ?_).2 _).2 ?_
    · exact {
        known := by decide
        once := by decide
        policy := .value (.tail _ (.head _)) rfl rfl
        layout := .absent (by simp)
        resolution := .absent (by simp)
        limit := .value (.head _) rfl (by decide +kernel) }
    · refine firstFailure_cons.2 (.inl ⟨?_, rfl⟩)
      rintro ⟨policy, ⟨⟩⟩
  · apply (values_decide_settings _).2.1
    rintro ⟨entries, given, has, areGiven⟩
    have read : Yaml.entries? "priority: edf".toList =
        some [("priority", ⟨.plain, none, "edf"⟩)] := by decide +kernel
    rw [Yaml.HasEntries, if_neg (by decide), read] at has
    cases has
    exact absurd (areGiven.known _ (.head _)) (by decide)

end Settings

end PeriodicJobs
