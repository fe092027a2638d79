import PeriodicJobs.Settings.Document

set_option autoImplicit false

/- What the entries of a document give for the settings: a value for each, or none. Every name
occurs once at most, so an entry counts wherever it stands. -/
namespace PeriodicJobs

namespace Yaml

variable {α : Type} {read : Scalar → Option α} {entries entries' : Entries} {name : String}

/-- What the entries give for a name: nothing if it is absent or null, and else what is read from
its scalar. -/
inductive Yields (read : Scalar → Option α) (entries : Entries) (name : String) : Option α → Prop
  | absent (missing : ∀ scalar, (name, scalar) ∉ entries) : Yields read entries name none
  | null {scalar : Scalar} (mem : (name, scalar) ∈ entries)
      (empty : scalar.present? = some none) : Yields read entries name none
  | value {scalar content : Scalar} {a : α} (mem : (name, scalar) ∈ entries)
      (filled : scalar.present? = some (some content)) (done : read content = some a) :
      Yields read entries name (some a)

theorem Yields.perm {given : Option α} (yields : Yields read entries name given)
    (perm : entries.Perm entries') : Yields read entries' name given := by
  cases yields with
  | absent missing => exact .absent fun scalar mem => missing scalar (perm.mem_iff.2 mem)
  | null mem empty => exact .null (perm.mem_iff.1 mem) empty
  | value mem filled done => exact .value (perm.mem_iff.1 mem) filled done

section

variable (once : (entries.map (·.1)).Nodup)

include once

theorem lookup_eq_some_iff_mem {scalar : Scalar} :
    entries.lookup name = some scalar ↔ (name, scalar) ∈ entries := by
  rw [List.lookup_eq_some_iff]
  constructor
  · rintro ⟨before, after, rfl, _⟩
    exact List.mem_append_right before List.mem_cons_self
  · intro mem
    obtain ⟨before, after, rfl⟩ := List.append_of_mem mem
    rw [List.map_append, List.map_cons, List.nodup_append] at once
    refine ⟨before, after, rfl, fun entry earlier => ?_⟩
    have apart := once.2.2 entry.1 (List.mem_map_of_mem earlier) name List.mem_cons_self
    exact bne_iff_ne.2 (Ne.symm apart)

theorem lookup_eq_none_iff_not_mem :
    entries.lookup name = none ↔ ∀ scalar, (name, scalar) ∉ entries := by
  simp only [← lookup_eq_some_iff_mem once, Option.eq_none_iff_forall_ne_some, ne_eq]

end

/-- Reads the scalar of a name, if the name is there and not null. -/
def valueOf? (read : Scalar → Option α) (entries : Entries) (name : String) : Option (Option α) :=
  match entries.lookup name with
  | none => some none
  | some scalar =>
    match scalar.present? with
    | none => none
    | some none => some none
    | some (some content) => (read content).map some

theorem valueOf?_eq_some_iff (once : (entries.map (·.1)).Nodup) {given : Option α} :
    valueOf? read entries name = some given ↔ Yields read entries name given := by
  constructor
  · intro found
    rw [valueOf?] at found
    split at found
    · rename_i missing
      cases found
      exact .absent ((lookup_eq_none_iff_not_mem once).1 missing)
    · rename_i scalar entry
      have mem := (lookup_eq_some_iff_mem once).1 entry
      split at found
      · cases found
      · rename_i empty
        cases found
        exact .null mem empty
      · rename_i content filled
        obtain ⟨a, done, rfl⟩ := Option.map_eq_some_iff.1 found
        exact .value mem filled done
  · intro yields
    cases yields with
    | absent missing => rw [valueOf?, (lookup_eq_none_iff_not_mem once).2 missing]
    | null mem empty =>
      rw [valueOf?, (lookup_eq_some_iff_mem once).2 mem]
      simp only [empty]
    | value mem filled done =>
      rw [valueOf?, (lookup_eq_some_iff_mem once).2 mem]
      simp only [filled, done, Option.map_some]

/-- The entries of a text. There are none if it holds nothing but blanks. -/
def HasEntries (text : List Char) (entries : Entries) : Prop :=
  if text.all Text.isBlank then entries = [] else entries? text = some entries

end Yaml

namespace GivenSettings

open Yaml (Entries Yields)

variable {entries entries' : Entries} {given : GivenSettings}

/-- The entries give these values: they have no names but those of the settings, each at most once,
and what stands behind a name is given to that setting. -/
structure AreGivenBy (given : GivenSettings) (entries : Entries) : Prop where
  known : ∀ entry ∈ entries, entry.1 ∈ names
  once : (entries.map (·.1)).Nodup
  policy : Yields (fun scalar => some scalar.text) entries "priority_policy" given.policy
  layout : Yields (fun scalar => some scalar.text) entries "output_format" given.layout
  resolution : Yields Yaml.Scalar.number? entries "time_resolution" given.resolution
  limit : Yields Yaml.Scalar.number? entries "max_hyperperiod" given.limit

theorem AreGivenBy.perm (areGiven : given.AreGivenBy entries) (perm : entries.Perm entries') :
    given.AreGivenBy entries' where
  known entry mem := areGiven.known entry (perm.mem_iff.2 mem)
  once := ((perm.map _).nodup_iff).1 areGiven.once
  policy := areGiven.policy.perm perm
  layout := areGiven.layout.perm perm
  resolution := areGiven.resolution.perm perm
  limit := areGiven.limit.perm perm

theorem text?_eq_valueOf? (entries : Entries) (name : String) :
    text? entries name = Yaml.valueOf? (fun scalar => some scalar.text) entries name := by
  rw [text?, Yaml.valueOf?]
  cases entries.lookup name with
  | none => rfl
  | some scalar =>
    cases present : scalar.present? with
    | none => simp only [present, Option.map_none]
    | some content => cases content <;> simp only [present, Option.map_some, Option.map_none]

theorem number?_eq_valueOf? (entries : Entries) (name : String) :
    number? entries name = Yaml.valueOf? Yaml.Scalar.number? entries name := rfl

theorem ofEntries?_eq_some_iff : ofEntries? entries = some given ↔ given.AreGivenBy entries := by
  have guard : ((entries.map (·.1)).all names.contains && decide (entries.map (·.1)).Nodup) = true ↔
      (∀ entry ∈ entries, entry.1 ∈ names) ∧ (entries.map (·.1)).Nodup := by
    simp only [Bool.and_eq_true, List.all_eq_true, List.mem_map, decide_eq_true_eq,
      List.contains_iff_mem, forall_exists_index, and_imp, forall_apply_eq_imp_iff₂]
  rw [ofEntries?]
  by_cases passed : (∀ entry ∈ entries, entry.1 ∈ names) ∧ (entries.map (·.1)).Nodup
  · obtain ⟨known, once⟩ := passed
    rw [if_pos (guard.2 ⟨known, once⟩)]
    simp only [text?_eq_valueOf?, number?_eq_valueOf?, Option.bind_eq_bind,
      Option.bind_eq_some_iff, Yaml.valueOf?_eq_some_iff once]
    constructor
    · rintro ⟨policy, hPolicy, layout, hLayout, resolution, hResolution, limit, hLimit, made⟩
      cases made
      exact ⟨known, once, hPolicy, hLayout, hResolution, hLimit⟩
    · intro areGiven
      exact ⟨_, areGiven.policy, _, areGiven.layout, _, areGiven.resolution, _, areGiven.limit, rfl⟩
  · rw [if_neg (mt guard.1 passed)]
    exact iff_of_false nofun fun areGiven => passed ⟨areGiven.known, areGiven.once⟩

theorem ofEntries?_perm (perm : entries.Perm entries') :
    ofEntries? entries = ofEntries? entries' := by
  apply Option.ext
  intro given
  rw [ofEntries?_eq_some_iff, ofEntries?_eq_some_iff]
  exact ⟨fun areGiven => areGiven.perm perm, fun areGiven => areGiven.perm perm.symm⟩

end GivenSettings

namespace Settings

variable {text : List Char}

/-- A text of blanks is read as one whose mapping is empty. -/
theorem ofText_eq {entries : Yaml.Entries} (has : Yaml.HasEntries text entries) :
    ofText text =
      (GivenSettings.ofEntries? entries).elim (.error .malformed) GivenSettings.check := by
  rw [Yaml.HasEntries] at has
  rw [ofText]
  split at has
  · rename_i blank
    rw [if_pos blank, has]
    rfl
  · rename_i written
    rw [if_neg written, has, Option.bind_some]
    cases GivenSettings.ofEntries? entries <;> rfl

theorem ofText_of_given {entries : Yaml.Entries} {given : GivenSettings}
    (has : Yaml.HasEntries text entries) (areGiven : given.AreGivenBy entries) :
    ofText text = given.check := by
  rw [ofText_eq has, GivenSettings.ofEntries?_eq_some_iff.2 areGiven, Option.elim_some]

/-- A text from whose entries nothing can be taken is refused before any check. -/
theorem ofText_of_not_given
    (refused : ¬ ∃ entries, ∃ given : GivenSettings,
      Yaml.HasEntries text entries ∧ given.AreGivenBy entries) :
    ofText text = .error .malformed := by
  by_cases mapping : ∃ entries, Yaml.HasEntries text entries
  · obtain ⟨entries, has⟩ := mapping
    rw [ofText_eq has]
    cases read : GivenSettings.ofEntries? entries with
    | none => rfl
    | some given =>
      exact absurd ⟨entries, given, has, GivenSettings.ofEntries?_eq_some_iff.1 read⟩ refused
  · have written : ¬ text.all Text.isBlank = true := by
      intro blank
      exact mapping ⟨[], by rw [Yaml.HasEntries, if_pos blank]⟩
    have malformed : Yaml.entries? text = none := by
      rw [Option.eq_none_iff_forall_ne_some]
      intro entries read
      exact mapping ⟨entries, by rwa [Yaml.HasEntries, if_neg written]⟩
    rw [ofText, if_neg written, malformed, Option.bind_none]

end Settings

end PeriodicJobs
