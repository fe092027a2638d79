import Mathlib.Algebra.Group.Nat.Defs
import Mathlib.Data.List.Induction
import PeriodicJobs.Proofs.Ticks

set_option autoImplicit false

/- Least common multiples of lists of words. The computation runs from left to right and comes
through as long as every part of the list from its start on has a multiple that fits a word. Without
a zero these multiples only grow, so the whole list decides. A zero is a multiple that fits, but it
has to be reached. -/
namespace PeriodicJobs

theorem leastMultiple_append (values values' : List Nat) :
    leastMultiple (values ++ values') =
      Nat.lcm (leastMultiple values) (leastMultiple values') := by
  apply Nat.dvd_right_iff_eq.1
  intro m
  simp only [Nat.lcm_dvd_iff, leastMultiple_dvd_iff, List.forall_mem_append]

theorem leastMultiple_dvd_of_subset {values values' : List Nat} (inside : values ⊆ values') :
    leastMultiple values ∣ leastMultiple values' := by
  rw [leastMultiple_dvd_iff]
  intro v mem
  exact (leastMultiple_dvd_iff values' _).1 (Nat.dvd_refl _) v (inside mem)

namespace Ticks

theorem lcm_eq_ok {a b c : UInt64} :
    lcm a b = .ok c ↔ c.toNat = Nat.lcm a.toNat b.toNat := by
  constructor
  · exact toNat_lcm
  · intro same
    obtain ⟨c', done⟩ := lcm_of_fits (same ▸ c.toNat_lt_size)
    rw [done, ← UInt64.toNat_inj.1 (same.trans (toNat_lcm done).symm)]

/-- The operands are reported just as they are. -/
theorem operands_of_lcm {a b : UInt64} {operands : TickOverflow}
    (failed : lcm a b = .error operands) : operands = ⟨a, b⟩ := by
  unfold lcm at failed
  split at failed
  · cases failed
  · simp only at failed
    split at failed
    · cases failed
    · cases failed
      rfl

theorem lcm_of_le {a b : UInt64} (large : 2 ^ 64 ≤ Nat.lcm a.toNat b.toNat) :
    lcm a b = .error ⟨a, b⟩ := by
  cases outcome : lcm a b with
  | ok c =>
    have word := c.toNat_lt
    rw [toNat_lcm outcome] at word
    omega
  | error operands => rw [operands_of_lcm outcome]

/-- Values whose least common multiple is a word. -/
def Fits (values : List UInt64) : Prop := leastMultiple (values.map UInt64.toNat) < 2 ^ 64

instance (values : List UInt64) : Decidable (Fits values) := inferInstanceAs (Decidable (_ < _))

theorem toNat_pos_of_moving {values : List UInt64} (moving : 0 ∉ values) :
    ∀ v ∈ values, 0 < v.toNat := by
  intro v mem
  apply Nat.pos_of_ne_zero
  intro none
  rw [UInt64.toNat_inj.1 (none.trans UInt64.toNat_zero.symm)] at mem
  exact moving mem

theorem leastMultiple_words_pos {values : List UInt64} (moving : 0 ∉ values) :
    0 < leastMultiple (values.map UInt64.toNat) :=
  leastMultiple_pos (List.forall_mem_map.2 (toNat_pos_of_moving moving))

/-- Without a zero, fewer values have a multiple that is not larger. -/
theorem Fits.of_subset {values part : List UInt64} (fits : Fits values) (moving : 0 ∉ values)
    (inside : part ⊆ values) : Fits part :=
  Nat.lt_of_le_of_lt (Nat.le_of_dvd (leastMultiple_words_pos moving)
    (leastMultiple_dvd_of_subset (List.map_subset _ inside))) fits

theorem toNat_foldlM {values : List UInt64} {multiple : UInt64}
    (done : values.foldlM lcm 1 = .ok multiple) :
    multiple.toNat = leastMultiple (values.map UInt64.toNat) := by
  apply Nat.dvd_right_iff_eq.1
  intro m
  rw [foldlM_dvd_iff done, leastMultiple_dvd_iff, List.forall_mem_map]
  simp

theorem fits_of_foldlM {values : List UInt64} {multiple : UInt64}
    (done : values.foldlM lcm 1 = .ok multiple) : Fits values := by
  rw [Fits, ← toNat_foldlM done]
  exact multiple.toNat_lt

theorem foldlM_concat {values : List UInt64} {multiple : UInt64}
    (done : values.foldlM lcm 1 = .ok multiple) (v : UInt64) :
    (values ++ [v]).foldlM lcm 1 = lcm multiple v := by
  rw [List.foldlM_append, done]
  change lcm multiple v >>= pure = _
  cases lcm multiple v <;> rfl

theorem lcmAll_eq_foldlM {values : List UInt64} (nonempty : values ≠ []) :
    lcmAll values = values.foldlM lcm 1 := if_neg (by simpa using nonempty)

/-- Where the multiples of the parts of a list stop to fit a word: the first operand is the multiple
of the longest part from the start on that has a fitting one, and the second is the value behind
it. -/
structure OutgrowsAfter (values part : List UInt64) (operands : TickOverflow) : Prop where
  starts : part ++ [operands.b] <+: values
  multiple : operands.a.toNat = leastMultiple (part.map UInt64.toNat)
  longest : ∀ other, other <+: values → Fits other → other <+: part

/-- Without a zero the computation comes through if the whole multiple fits, and otherwise it stops
where the multiples stop to fit. The induction takes the last value off, so what is before it has
been computed or has stopped already. -/
theorem foldlM_cases {values : List UInt64} (moving : 0 ∉ values) :
    (Fits values ∧ ∃ multiple, values.foldlM lcm 1 = .ok multiple) ∨
      (¬ Fits values ∧ ∃ part operands, OutgrowsAfter values part operands ∧
        values.foldlM lcm 1 = .error operands) := by
  induction values using List.reverseRecOn with
  | nil => exact .inl ⟨by decide, 1, rfl⟩
  | append_singleton values v ih =>
    have before : values ⊆ values ++ [v] := List.subset_append_left _ _
    have moving' : 0 ∉ values := fun mem => moving (before mem)
    rcases ih moving' with ⟨_, multiple, done⟩ | ⟨large, part, operands, outgrows, failed⟩
    · have whole : Fits (values ++ [v]) ↔ Nat.lcm multiple.toNat v.toNat < 2 ^ 64 := by
        rw [Fits, List.map_append, leastMultiple_append, toNat_foldlM done]
        simp [leastMultiple]
      rw [foldlM_concat done]
      by_cases fits : Fits (values ++ [v])
      · exact .inl ⟨fits, lcm_of_fits (whole.1 fits)⟩
      · have large := Nat.not_lt.1 (mt whole.2 fits)
        refine .inr ⟨fits, values, ⟨multiple, v⟩, ?_, lcm_of_le large⟩
        refine ⟨List.prefix_refl _, toNat_foldlM done, ?_⟩
        intro other starts fitting
        rcases List.prefix_concat_iff.1 starts with rfl | starts
        · exact absurd fitting fits
        · exact starts
    · refine .inr ⟨fun fits => large (fits.of_subset moving before), part, operands, ?_, ?_⟩
      · refine ⟨outgrows.starts.trans (List.prefix_append _ _), outgrows.multiple, ?_⟩
        intro other starts fitting
        rcases List.prefix_concat_iff.1 starts with rfl | starts
        · exact absurd (fitting.of_subset moving before) large
        · exact outgrows.longest other starts fitting
      · rw [List.foldlM_append, failed]
        rfl

theorem exists_multiple_iff {values : List UInt64} (moving : 0 ∉ values) :
    (∃ multiple, values.foldlM lcm 1 = .ok multiple) ↔ Fits values := by
  constructor
  · rintro ⟨multiple, done⟩
    exact fits_of_foldlM done
  · intro fits
    rcases foldlM_cases moving with ⟨_, done⟩ | ⟨large, _⟩
    · exact done
    · exact absurd fits large

theorem exists_overflow_of_not_fits {values : List UInt64} (moving : 0 ∉ values)
    (large : ¬ Fits values) : ∃ part operands, OutgrowsAfter values part operands ∧
      values.foldlM lcm 1 = .error operands := by
  rcases foldlM_cases moving with ⟨fits, _⟩ | ⟨_, stopped⟩
  · exact absurd fits large
  · exact stopped

/-- The computation is exact. Divisors and multiples of two words are those of the numbers, and a
multiple that is no word is reported with its operands. The multiple of a list without zeros is the
least common multiple of all its values if that is a word. Otherwise the computation stops behind
the longest part from the start on whose multiple is a word, and reports that multiple and the value
that follows. -/
theorem multiples_are_exact :
    (∀ a b, (gcd a b).toNat = Nat.gcd a.toNat b.toNat) ∧
    (∀ a, gcd 0 a = a) ∧
    (∀ a b, Nat.lcm a.toNat b.toNat < 2 ^ 64 →
      lcm a b = .ok (UInt64.ofNat (Nat.lcm a.toNat b.toNat))) ∧
    (∀ a b, 2 ^ 64 ≤ Nat.lcm a.toNat b.toNat → lcm a b = .error ⟨a, b⟩) ∧
    ∀ values, values ≠ [] → 0 ∉ values →
      (leastMultiple (values.map UInt64.toNat) < 2 ^ 64 →
        lcmAll values = .ok (UInt64.ofNat (leastMultiple (values.map UInt64.toNat)))) ∧
      (2 ^ 64 ≤ leastMultiple (values.map UInt64.toNat) →
        ∃ part operands, OutgrowsAfter values part operands ∧
          lcmAll values = .error operands) := by
  refine ⟨toNat_gcd, ?_, ?_, fun _ _ => lcm_of_le, ?_⟩
  · intro a
    rw [← UInt64.toNat_inj, toNat_gcd, UInt64.toNat_zero, Nat.gcd_zero_left]
  · intro a b fits
    rw [lcm_eq_ok, UInt64.toNat_ofNat_of_lt' fits]
  · intro values nonempty moving
    refine ⟨lcmAll_of_lt nonempty (toNat_pos_of_moving moving), fun large => ?_⟩
    rw [lcmAll_eq_foldlM nonempty]
    exact exists_overflow_of_not_fits moving (Nat.not_lt.2 large)

/-- A multiple of four and six; and two powers of two that outgrow a word with the three behind
them, whatever follows. -/
theorem multiples_are_exact_twelve :
    lcmAll [4, 6] = .ok 12 ∧
      ∃ part operands, OutgrowsAfter [.ofNat (2 ^ 63), 2, 3, 5] part operands ∧
        lcmAll [.ofNat (2 ^ 63), 2, 3, 5] = .error operands := by
  have exact := multiples_are_exact.2.2.2.2
  exact ⟨(exact [4, 6] (by decide) (by decide)).1 (by decide),
    (exact _ (by decide) (by decide)).2 (by decide +kernel)⟩

theorem foldlM_zero (values : List UInt64) : values.foldlM lcm 0 = .ok 0 := by
  induction values with
  | nil => rfl
  | cons v values ih =>
    have step : lcm 0 v = .ok 0 := if_pos (.inl rfl)
    rw [List.foldlM_cons, step]
    exact ih

section

variable {before : List UInt64} (first : 0 ∉ before) (after : List UInt64)

include first

theorem lcmAll_of_reached (fits : Fits before) : lcmAll (before ++ 0 :: after) = .ok 0 := by
  obtain ⟨multiple, done⟩ := (exists_multiple_iff first).2 fits
  have step : lcm multiple 0 = .ok 0 := if_pos (.inr rfl)
  rw [lcmAll_eq_foldlM (by simp), List.foldlM_append, done]
  change List.foldlM lcm multiple (0 :: after) = _
  rw [List.foldlM_cons, step]
  exact foldlM_zero after

theorem lcmAll_of_missed (large : ¬ Fits before) :
    ∃ part operands, OutgrowsAfter before part operands ∧
      lcmAll (before ++ 0 :: after) = .error operands := by
  obtain ⟨part, operands, outgrows, failed⟩ := exists_overflow_of_not_fits first large
  refine ⟨part, operands, outgrows, ?_⟩
  rw [lcmAll_eq_foldlM (by simp), List.foldlM_append, failed]
  rfl

theorem lcmAll_eq_zero_iff : lcmAll (before ++ 0 :: after) = .ok 0 ↔ Fits before := by
  refine ⟨fun done => ?_, lcmAll_of_reached first after⟩
  by_contra large
  obtain ⟨_, _, _, failed⟩ := lcmAll_of_missed first after large
  rw [failed] at done
  cases done

end

/-- The zeros of a list can be moved behind its other values. -/
theorem exists_perm_zeros_last {values : List UInt64} (zero : 0 ∈ values) :
    ∃ after, values.Perm (values.filter (· != 0) ++ 0 :: after) := by
  have perm := (List.filter_append_perm (· != 0) values).symm
  have inside : 0 ∈ values.filter fun v => !(v != 0) := List.mem_filter.2 ⟨zero, rfl⟩
  have zeros : ∀ v ∈ values.filter fun v => !(v != 0), v = 0 := by simp
  cases split : values.filter fun v => !(v != 0) with
  | nil =>
    rw [split] at inside
    cases inside
  | cons v after =>
    rw [split] at perm zeros
    rw [zeros v List.mem_cons_self] at perm
    exact ⟨after, perm⟩

/-- The values that are not zero decide whether a zero is reached in every order: with all of them
in front of it, it is reached last, and what is in front of it in any other order is among them. -/
theorem lcmAll_zero_in_every_order_iff {values : List UInt64} (zero : 0 ∈ values) :
    (∀ values', values.Perm values' → lcmAll values' = .ok 0) ↔
      Fits (values.filter (· != 0)) := by
  have moving : 0 ∉ values.filter (· != 0) := by simp
  constructor
  · intro all
    obtain ⟨after, perm⟩ := exists_perm_zeros_last zero
    exact (lcmAll_eq_zero_iff moving after).1 (all _ perm)
  · intro fits values' perm
    obtain ⟨before, after, rfl, first⟩ := List.eq_append_cons_of_mem (perm.mem_iff.1 zero)
    refine lcmAll_of_reached first after (fits.of_subset moving fun v mem => ?_)
    have other : v ≠ 0 := by
      rintro rfl
      exact first mem
    exact List.mem_filter.2 ⟨perm.mem_iff.2 (List.mem_append_left _ mem), by simpa using other⟩

theorem lcmAll_unique {values values' : List UInt64} (perm : values.Perm values')
    {multiple multiple' : UInt64} (done : lcmAll values = .ok multiple)
    (done' : lcmAll values' = .ok multiple') : multiple = multiple' := by
  rcases eq_or_ne values [] with rfl | nonempty
  · rw [← perm.nil_eq, done] at done'
    exact Except.ok.inj done'
  · have nonempty' : values' ≠ [] := fun none => nonempty (none ▸ perm).eq_nil
    rw [← UInt64.toNat_inj, toNat_lcmAll nonempty done, toNat_lcmAll nonempty' done']
    exact leastMultiple_congr fun _ => (perm.map _).mem_iff

/-- Without a zero the order does not even decide about the success. -/
theorem lcmAll_of_perm {values values' : List UInt64} (perm : values.Perm values')
    (moving : 0 ∉ values) {multiple : UInt64} (done : lcmAll values = .ok multiple) :
    lcmAll values' = .ok multiple := by
  rcases eq_or_ne values [] with rfl | nonempty
  · rwa [← perm.nil_eq]
  · have nonempty' : values' ≠ [] := fun none => nonempty (none ▸ perm).eq_nil
    have fits : Fits values' := by
      have found := done
      rw [lcmAll_eq_foldlM nonempty] at found
      exact (fits_of_foldlM found).of_subset moving perm.symm.subset
    obtain ⟨multiple', done'⟩ :=
      (exists_multiple_iff fun mem => moving (perm.mem_iff.2 mem)).2 fits
    rw [← lcmAll_eq_foldlM nonempty'] at done'
    rw [done', lcmAll_unique perm done done']

/-- A zero makes the multiple of a list zero if it is reached, that is if the values before the
first one have a multiple that fits a word; otherwise the overflow among these is reported. So a
list with a zero has the multiple zero in all of its orders just if the rest of its values have a
multiple that fits. Two orders of a list never have two multiples, and without a zero both have one
or neither. -/
theorem zero_counts_if_reached (values : List UInt64) :
    (∀ before after, values = before ++ 0 :: after → 0 ∉ before →
      (Fits before → lcmAll values = .ok 0) ∧
      (¬ Fits before → ∃ part operands, OutgrowsAfter before part operands ∧
        lcmAll values = .error operands)) ∧
    (0 ∈ values → ((∀ values', values.Perm values' → lcmAll values' = .ok 0) ↔
      Fits (values.filter (· != 0)))) ∧
    ∀ values', values.Perm values' →
      (∀ multiple multiple', lcmAll values = .ok multiple → lcmAll values' = .ok multiple' →
        multiple = multiple') ∧
      (0 ∉ values → ∀ multiple, lcmAll values = .ok multiple ↔ lcmAll values' = .ok multiple) := by
  refine ⟨?_, lcmAll_zero_in_every_order_iff, ?_⟩
  · rintro before after rfl first
    exact ⟨lcmAll_of_reached first after, lcmAll_of_missed first after⟩
  · intro values' perm
    refine ⟨fun _ _ => lcmAll_unique perm, fun moving multiple => ?_⟩
    exact ⟨lcmAll_of_perm perm moving,
      lcmAll_of_perm perm.symm fun mem => moving (perm.mem_iff.2 mem)⟩

/-- A zero between four and six collapses their multiple in every order, and one in front of values
without a multiple does. -/
theorem zero_counts_if_reached_four_six :
    (∀ values', [4, 0, 6].Perm values' → lcmAll values' = .ok 0) ∧
      lcmAll [0, .ofNat (2 ^ 63), .ofNat (2 ^ 63 - 1)] = .ok 0 :=
  ⟨((zero_counts_if_reached [4, 0, 6]).2.1 (by decide)).2 (by decide),
    ((zero_counts_if_reached _).1 [] _ rfl (by decide)).1 (by decide)⟩

/-- A zero behind two values without a multiple is never reached. -/
theorem zero_behind_overflow :
    lcmAll [.ofNat (2 ^ 63), .ofNat (2 ^ 63 - 1), 0] =
        .error ⟨.ofNat (2 ^ 63), .ofNat (2 ^ 63 - 1)⟩ ∧
      lcmAll [0, .ofNat (2 ^ 63), .ofNat (2 ^ 63 - 1)] = .ok 0 := by
  decide +kernel

end Ticks

end PeriodicJobs
