import Mathlib
import Mixtures.Proofs.Em.Results
import Mixtures.Proofs.Scalar.Masses

/-!
# Responsibilities in exact arithmetic

In exact arithmetic the responsibilities for a sample are shares of the components in it: they are
not negative and add up to one, whether the sample is given to one component alone or shared out by
densities. `IsShare` says so, together with the positions to which shares may go. The weights of a
mixture are shares as well.

* `exists_one_le_mass`: with at most as many of these positions as samples, one of them gets the
  responsibility for a whole sample or more.
-/

namespace Mixtures.Em

variable {F : Type}

/-- No responsibility is negative. -/
def NonNegative (row : List ℝ) : Prop := ∀ r ∈ row, 0 ≤ r

theorem nonNegative_oneHot (count label : Nat) : NonNegative (oneHot count label) := by
  intro r hr
  obtain ⟨c, -, rfl⟩ := List.mem_map.mp hr
  split
  · exact zero_le_one
  · exact le_rfl

theorem nonNegative_explain (p : Problem ℝ F) (components : List (Component ℝ))
    (factors : List (Option F)) (x : Point ℝ) :
    NonNegative (p.explain components factors x).1 := by
  unfold Problem.explain
  dsimp only
  split
  · intro r hr
    obtain ⟨term, -, rfl⟩ := List.mem_map.mp hr
    exact LogMass.massAbove_nonneg _ term
  · exact nonNegative_oneHot _ _

theorem NonNegative.getD {row : List ℝ} (h : NonNegative row) (i : Nat) : 0 ≤ row.getD i 0 := by
  by_cases hlt : i < row.length
  · exact h _ (getD_mem hlt 0)
  · rw [List.getD_eq_default row 0 (Nat.not_lt.mp hlt)]

theorem nonNegative_column {rows : List (List ℝ)} (h : ∀ row ∈ rows, NonNegative row)
    (component : Nat) : NonNegative (column rows component) := by
  intro r hr
  obtain ⟨row, hrow, rfl⟩ := List.mem_map.mp hr
  exact (h row hrow).getD component

/-- So are the responsibilities with which samples take part in an estimate. -/
theorem nonNegative_weighted {p : Problem ℝ F} {rows : List (List ℝ)}
    (h : ∀ row ∈ rows, NonNegative row) (component : Nat) :
    ∀ entry ∈ p.weighted (column rows component), 0 ≤ entry.1 := fun _ hentry =>
  nonNegative_column h component _ (List.of_mem_zip (List.mem_filter.mp hentry).1).1

/-! ## Shares -/

/-- One number for each of `count` components, none of them negative and only those at the positions
`support` not zero. -/
structure IsPart (count : Nat) (support : Finset Nat) (row : List ℝ) : Prop where
  length_eq : row.length = count
  nonNegative : NonNegative row
  outside : ∀ i ∉ support, row.getD i 0 = 0

/-- Such numbers that are shares of one: responsibilities for a sample, or weights. -/
structure IsShare (count : Nat) (support : Finset Nat) (row : List ℝ) : Prop
    extends IsPart count support row where
  sum_eq : row.sum = 1

theorem getD_oneHot (count label i : Nat) :
    (oneHot count label : List ℝ).getD i 0 = if i < count ∧ i = label then 1 else 0 := by
  unfold oneHot
  by_cases hi : i < count
  · rw [List.getD_eq_getElem _ 0 (by simpa using hi)]
    simp [hi]
  · rw [List.getD_eq_default _ 0 (by simpa using hi), if_neg fun h => hi h.1]

theorem isShare_oneHot {count label : Nat} (hlabel : label < count) {support : Finset Nat}
    (hmem : label ∈ support) : IsShare count support (oneHot count label) where
  length_eq := length_oneHot count label
  nonNegative := nonNegative_oneHot count label
  sum_eq := by
    rw [Exact.sum_eq_sum_range (length_oneHot count label), Finset.sum_eq_single label]
    · rw [getD_oneHot, if_pos ⟨hlabel, rfl⟩]
    · intro i _ hne
      rw [getD_oneHot, if_neg fun h => hne h.2]
    · exact fun h => absurd (Finset.mem_range.mpr hlabel) h
  outside i hi := by
    rw [getD_oneHot, if_neg]
    rintro ⟨-, rfl⟩
    exact hi hmem

/-- Densities share a sample out among the components that have a factor. -/
theorem isShare_massAbove {count : Nat} {support : Finset Nat} {terms : List (LogMass ℝ)}
    (hlength : terms.length = count) (hsupport : ∀ i x, terms[i]? = some (.of x) → i ∈ support)
    {norm : ℝ} (h : (LogMass.sum terms).finite? = some norm) :
    IsShare count support (terms.map (LogMass.massAbove norm)) where
  length_eq := (List.length_map _).trans hlength
  nonNegative r hr := by
    obtain ⟨term, -, rfl⟩ := List.mem_map.mp hr
    exact LogMass.massAbove_nonneg norm term
  sum_eq := LogMass.sum_massAbove_eq_one h
  outside i hi := by
    rw [List.getD_eq_getElem?_getD, List.getElem?_map]
    cases hterm : terms[i]? with
    | none => rfl
    | some term =>
      cases term with
      | zero => rfl
      | of x => exact absurd (hsupport i x hterm) hi

/-! ## Masses -/

/-- Samples that are shared out completely make as many samples in all. -/
theorem sum_mass_eq {count : Nat} {support : Finset Nat} {rows : List (List ℝ)}
    (h : ∀ row ∈ rows, IsShare count support row) :
    ∑ i ∈ Finset.range count, (column rows i).sum = rows.length := by
  induction rows with
  | nil => simp [column]
  | cons row rows ih =>
    have hrow := h row List.mem_cons_self
    have hrest := ih fun row hmem => h row (List.mem_cons_of_mem _ hmem)
    simp only [column, List.map_cons, List.sum_cons, Finset.sum_add_distrib] at hrest ⊢
    rw [hrest, ← Exact.sum_eq_sum_range hrow.length_eq, hrow.sum_eq, List.length_cons,
      Nat.cast_succ, add_comm]

/-- A position outside gets no responsibility. -/
theorem mass_eq_zero {count : Nat} {support : Finset Nat} {rows : List (List ℝ)}
    (h : ∀ row ∈ rows, IsShare count support row) {i : Nat} (hi : i ∉ support) :
    (column rows i).sum = 0 := by
  refine List.sum_eq_zero fun r hr => ?_
  obtain ⟨row, hrow, rfl⟩ := List.mem_map.mp hr
  exact (h row hrow).outside i hi

/-- With at most as many positions as samples, one of them gets the responsibility for a whole
sample or more. -/
theorem exists_one_le_mass {count : Nat} {support : Finset Nat} {rows : List (List ℝ)}
    (h : ∀ row ∈ rows, IsShare count support row) (hsupport : support ⊆ Finset.range count)
    (hnonempty : support.Nonempty) (hcard : support.card ≤ rows.length) :
    ∃ i ∈ support, 1 ≤ (column rows i).sum := by
  refine Finset.exists_le_of_sum_le hnonempty ?_
  have htotal : ∑ i ∈ support, (column rows i).sum = rows.length := by
    rw [← sum_mass_eq h]
    exact Finset.sum_subset hsupport fun i _ hi => mass_eq_zero h hi
  rw [htotal, Finset.sum_const, nsmul_one]
  exact Nat.cast_le.mpr hcard

end Mixtures.Em
