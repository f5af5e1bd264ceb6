import Mixtures.Proofs.Em.Factoring
import Mixtures.Proofs.Em.Responsibilities
import Mixtures.Proofs.Scalar.Elementary

/-!
# Responsibilities in doubles

Estimates trust the responsibilities that an expectation step leaves behind, so whatever the state
is, they are numbers between zero and one. A state is any list of components here: weights, means
and covariances may be infinite or not numbers, and so may samples and densities. The exponential
and the logarithm are any that are documented (`Elementary.Documented`), those of the machine among
them (`Double.instScalarWith_machine`).

* `IsResponsible`: a row that can be trusted.
* `Shared`, `Assigned`: the two kinds of rows.
* `explain_row`: one row, and `Problem.expect_responsible`: all rows of a step.
-/

namespace Mixtures.Em

open Double

variable {f : Elementary} {F : Type}

/-- One number between zero and one for each component, not all of them zero. -/
structure IsResponsible (count : Nat) (row : List (With f)) : Prop where
  length_eq : row.length = count
  isNaN : ∀ r ∈ row, Scalar.isNaN r = false
  bounds : ∀ r ∈ row, 0 ≤ r ∧ r ≤ 1
  exists_pos : ∃ r ∈ row, 0 < r

/-- A row made from densities: the logarithm of their sum is finite and taken from each of theirs,
and a component without a factor gets nothing. -/
structure Shared (p : Problem (With f) F) (components : List (Component (With f)))
    (factors : List (Option F)) (x : Point (With f)) (row : List (With f))
    (norm : With f) : Prop where
  sum_eq : LogMass.sum (p.logTerms components factors x) = .of norm
  isFinite : Scalar.isFinite norm = true
  row_eq : row = (p.logTerms components factors x).map fun term => Scalar.exp (term.exponent - norm)
  skipped : ∀ i : Nat, factors[i]? = some none → row[i]? = some 0

/-- A row of a sample without a finite density: it belongs to the nearest component with weight. -/
structure Assigned (p : Problem (With f) F) (components : List (Component (With f)))
    (factors : List (Option F)) (x : Point (With f)) (row : List (With f)) : Prop where
  sum_eq : (LogMass.sum (p.logTerms components factors x)).finite? = none
  nearestLive_lt : nearestLive components x < p.count
  row_eq : row = oneHot p.count (nearestLive components x)

/-! ## Assigned rows -/

theorem isResponsible_oneHot {count label : Nat} (h : label < count) :
    IsResponsible count (oneHot count label : List (With f)) := by
  have hbounds : ∀ r ∈ (oneHot count label : List (With f)), 0 ≤ r ∧ r ≤ 1 := by
    intro r hr
    obtain ⟨c, -, rfl⟩ := List.mem_map.mp hr
    split
    · exact one_mem
    · exact zero_mem
  refine ⟨length_oneHot count label, ?_, hbounds, 1, ?_, zero_lt_one⟩
  · intro r hr
    exact isNaN_eq_false_of_le (hbounds r hr).1
  · exact List.mem_map.mpr ⟨label, List.mem_range.mpr h, if_pos rfl⟩

/-! ## Shared rows -/

theorem eq_of_finite? {α : Type} [Scalar α] {mass : LogMass α} {x : α}
    (h : mass.finite? = some x) : mass = .of x ∧ Scalar.isFinite x = true := by
  cases mass with
  | zero => cases h
  | of y =>
    obtain ⟨hfinite, hsome⟩ := Option.ite_none_right_eq_some.mp h
    cases hsome
    exact ⟨rfl, hfinite⟩

/-- A component without a factor has the mass zero. -/
theorem getElem?_logTerms {α : Type} [Scalar α] (p : Problem α F)
    {components : List (Component α)} {factors : List (Option F)}
    (hlength : factors.length = components.length) (x : Point α) {i : Nat}
    (hi : factors[i]? = some none) : (p.logTerms components factors x)[i]? = some .zero := by
  have hlt : i < components.length := by
    rw [← hlength]
    exact (List.getElem?_eq_some_iff.mp hi).1
  rw [Problem.logTerms, List.getElem?_zipWith, List.getElem?_eq_getElem hlt, hi]

variable {p : Problem (With f) F} {components : List (Component (With f))}
  {factors : List (Option F)}

/-- **A shared row** can be trusted. -/
theorem isResponsible_shared (h : f.Documented) (hcount : components.length = p.count)
    (hlength : factors.length = components.length) (x : Point (With f)) {norm : With f}
    (hsum : (LogMass.sum (p.logTerms components factors x)).finite? = some norm) :
    IsResponsible p.count ((p.logTerms components factors x).map (LogMass.massAbove norm)) := by
  have hbounds := LogMass.massAbove_bounds h hsum
  obtain ⟨term, hterm, hpos⟩ := LogMass.exists_massAbove_pos h hsum
  have hrow : ∀ r ∈ (p.logTerms components factors x).map (LogMass.massAbove norm),
      0 ≤ r ∧ r ≤ 1 := by
    intro r hr
    obtain ⟨term, hterm, rfl⟩ := List.mem_map.mp hr
    exact hbounds term hterm
  refine ⟨?_, ?_, hrow, _, List.mem_map_of_mem hterm, hpos⟩
  · rw [List.length_map, length_logTerms p hlength, hcount]
  · intro r hr
    exact isNaN_eq_false_of_le (hrow r hr).1

theorem shared (h : f.Documented) (hlength : factors.length = components.length)
    (x : Point (With f)) {norm : With f}
    (hsum : (LogMass.sum (p.logTerms components factors x)).finite? = some norm) :
    Shared p components factors x
      ((p.logTerms components factors x).map (LogMass.massAbove norm)) norm := by
  obtain ⟨heq, hfinite⟩ := eq_of_finite? hsum
  refine ⟨heq, hfinite, ?_, ?_⟩
  · exact List.map_congr_left fun term _ => LogMass.massAbove_eq_exp h hfinite term
  · intro i hi
    rw [List.getElem?_map, getElem?_logTerms p hlength x hi]
    rfl

/-- **The row of a sample** can be trusted, whether it is shared or assigned. -/
theorem explain_row (h : f.Documented) (hcount : components.length = p.count)
    (hlength : factors.length = components.length) (hne : p.count ≠ 0) (x : Point (With f)) :
    IsResponsible p.count (p.explain components factors x).1 ∧
      ((∃ norm, Shared p components factors x (p.explain components factors x).1 norm) ∨
        Assigned p components factors x (p.explain components factors x).1) := by
  cases hsum : (LogMass.sum (p.logTerms components factors x)).finite? with
  | some norm =>
    have hrow : (p.explain components factors x).1 =
        (p.logTerms components factors x).map (LogMass.massAbove norm) := by
      rw [Problem.explain, hsum]
    rw [hrow]
    exact ⟨isResponsible_shared h hcount hlength x hsum, .inl ⟨norm, shared h hlength x hsum⟩⟩
  | none =>
    have hrow : (p.explain components factors x).1 =
        oneHot p.count (nearestLive components x) := by
      rw [Problem.explain, hsum]
    have hlt := nearestLive_lt hcount hne x
    rw [hrow]
    exact ⟨isResponsible_oneHot hlt, .inr ⟨hsum, hlt, rfl⟩⟩

/-! ## Expectation steps -/

/-- **A completed step** leaves a row for each sample that can be trusted, and has skipped the
components without weight. -/
theorem Problem.expect_rows (h : f.Documented) {s s' : State (With f)} {total : With f}
    (hcount : s.components.length = p.count) (hne : p.count ≠ 0)
    (hdone : p.expect s = .done total s') :
    ∃ factors : List (Option F), p.Explains s total s' factors ∧
      (∀ (i : Nat) c, s.components[i]? = some c → c.weight ≤ 0 → factors[i]? = some none) ∧
      List.Forall₂ (fun x row => IsResponsible p.count row ∧
        ((∃ norm, Shared p s'.components factors x row norm) ∨
          Assigned p s'.components factors x row)) p.points s'.responsibilities := by
  obtain ⟨factors, hexplains⟩ := p.expect_done hdone
  have hlength : factors.length = s'.components.length := by
    rw [hexplains.factorCount, hexplains.length_eq, hcount]
  refine ⟨factors, hexplains, ?_, ?_⟩
  · intro i c hc hdead
    have hlt : i < factors.length := by
      rw [hexplains.factorCount, ← hcount]
      exact (List.getElem?_eq_some_iff.mp hc).1
    cases hfactor : factors[i] with
    | none => rw [List.getElem?_eq_getElem hlt, hfactor]
    | some g =>
      have hsome : factors[i]? = some (some g) := by rw [List.getElem?_eq_getElem hlt, hfactor]
      obtain ⟨c', hc', hlive⟩ := hexplains.hasWeight i g hsome
      cases hc.symm.trans hc'
      exact absurd hdead hlive
  · rw [hexplains.responsibilities_eq, List.forall₂_map_right_iff]
    apply List.forall₂_same.mpr
    intro x _
    exact explain_row h (hexplains.length_eq.trans hcount) hlength hne x

/-- In exact arithmetic, the rows are shares of one. -/
theorem Problem.sum_row_eq_one {p : Problem ℝ F} {s s' : State ℝ} {total : ℝ}
    (hcount : s.components.length = p.count) (hne : p.count ≠ 0)
    (hdone : p.expect s = .done total s') : ∀ row ∈ s'.responsibilities, row.sum = 1 := by
  obtain ⟨factors, hexplains⟩ := p.expect_done hdone
  intro row hrow
  rw [hexplains.responsibilities_eq] at hrow
  obtain ⟨x, -, rfl⟩ := List.mem_map.mp hrow
  have hlt := nearestLive_lt (hexplains.length_eq.trans hcount) hne x
  unfold Problem.explain
  dsimp only
  split
  next norm hnorm => exact LogMass.sum_massAbove_eq_one hnorm
  next => exact (isShare_oneHot hlt (Finset.mem_singleton_self _)).sum_eq

/-- **Responsibilities** after an expectation step that is completed, from any state and for any
samples, infinities and values that are not numbers included. With doubles as they round and any
documented exponential and logarithm, each sample has one responsibility for each component, a
number between zero and one, and one of them is positive. They are made from densities, where
components skipped for their weight get exactly zero, or the sample belongs to the nearest component
with weight. In exact arithmetic they add up to one. -/
theorem Problem.expect_responsible (F : Type) :
    (∀ f : Elementary, f.Documented → ∀ (p : Problem (With f) F) (s s' : State (With f))
      (total : With f), s.components.length = p.count → p.count ≠ 0 → p.expect s = .done total s' →
      ∃ factors : List (Option F), p.Explains s total s' factors ∧
        (∀ (i : Nat) c, s.components[i]? = some c → c.weight ≤ 0 → factors[i]? = some none) ∧
        List.Forall₂ (fun x row => IsResponsible p.count row ∧
          ((∃ norm, Shared p s'.components factors x row norm) ∨
            Assigned p s'.components factors x row)) p.points s'.responsibilities) ∧
    ∀ (p : Problem ℝ F) (s s' : State ℝ) (total : ℝ), s.components.length = p.count →
      p.count ≠ 0 → p.expect s = .done total s' → ∀ row ∈ s'.responsibilities, row.sum = 1 :=
  ⟨fun _ h _ _ _ _ hcount hne hdone => expect_rows h hcount hne hdone,
    fun _ _ _ _ hcount hne hdone => sum_row_eq_one hcount hne hdone⟩

/-! ## A state with values that are not numbers -/

/-- An exponential and a logarithm that are right at the few arguments that are needed. -/
def coarse : Elementary where
  exp x := if Scalar.isNaN x then x else if x < -700 then 0 else if x < 0 then 0.5 else 1
  ln x := if Scalar.isNaN x then x else if x = 2 then 0.6931471805599453 else 0

theorem half_mem : (0 : Float) < 0.5 ∧ (0.5 : Float) ≤ 1 := by decide +kernel

theorem lnTwo_mem : (0 : Float) ≤ 0.6931471805599453 ∧ (0.6931471805599453 : Float) ≤ 37 ∧
    (0 : Float) ≤ 37 := by
  decide +kernel

theorem coarse_exp {x : Float} (h : Scalar.isNaN x = false) :
    0 ≤ coarse.exp x ∧ coarse.exp x ≤ 1 ∧ (-700 ≤ x → 0 < coarse.exp x) := by
  obtain ⟨hhalf, hhalf'⟩ := half_mem
  unfold coarse
  dsimp only
  rw [h, if_neg Bool.false_ne_true]
  split_ifs with hbelow hneg
  · exact ⟨zero_mem.1, zero_mem.2, fun hle => absurd hbelow (not_lt_of_le hle)⟩
  · exact ⟨le_of_lt hhalf, hhalf', fun _ => hhalf⟩
  · exact ⟨one_mem.1, one_mem.2, fun _ => zero_lt_one⟩

theorem coarse_ln {x : Float} (h : Scalar.isNaN x = false) :
    0 ≤ coarse.ln x ∧ coarse.ln x ≤ 37 := by
  obtain ⟨htwo, htwo', hzero⟩ := lnTwo_mem
  unfold coarse
  dsimp only
  rw [h, if_neg Bool.false_ne_true]
  split_ifs
  · exact ⟨htwo, htwo'⟩
  · exact ⟨zero_mem.1, hzero⟩

theorem coarse_documented : coarse.Documented where
  exp_nan x hnan := by
    have hexp : Scalar.exp x = x := if_pos hnan
    rw [hexp, hnan]
  ln_nan x hnan := by
    have hln : Scalar.ln x = x := if_pos hnan
    rw [hln, hnan]
  exp_mem x hx :=
    have hexp := coarse_exp (isNaN_eq_false_iff.mpr (isNumber_of_le hx).1)
    ⟨hexp.1, hexp.2.1⟩
  exp_zero := by decide +kernel
  exp_neg_inf := by decide +kernel
  exp_pos x hx hx' := (coarse_exp (isNaN_eq_false_of_le hx)).2.2 hx
  ln_nonneg x hx := (coarse_ln (isNaN_eq_false_of_le hx)).1
  ln_le x hx _ := (coarse_ln (isNaN_eq_false_of_le hx)).2

/-- Samples on a line, one of them far away. -/
def farProblem : Problem (With coarse) (Cholesky (With coarse)) where
  settings := { Settings.ofCount 4 with floor := 0 }
  points := [[0], [Float.ofNat (10 ^ 200)]]
  dim := 1
  kernel := .gaussian

/-- Two standard normal components, one without weight and one that is infinitely far away. -/
def mixedState : State (With coarse) where
  components := [⟨1, [0], [1]⟩, ⟨0, [Float.nan], [Float.nan]⟩, ⟨1, [Float.inf], [1]⟩, ⟨1, [0], [1]⟩]
  responsibilities := []
  resets := 0
  history := []

/-- The state after the step. -/
def sharedState : State (With coarse) :=
  { mixedState with
    responsibilities := [[Scalar.half, 0, 0, Scalar.half], [1, 0, 0, 0]]
    history := [.unexplained 1] }

theorem expect_mixedState :
    farProblem.expect mixedState = .done (-0.2257913526447275 : Float) sharedState := by
  decide +kernel

/-- Two components that are the same everywhere. -/
noncomputable def flatProblem : Problem ℝ Unit where
  settings := .ofCount 2
  points := [[0], [1]]
  dim := 1
  kernel := ⟨fun _ _ => some (), fun _ _ _ => 0⟩

noncomputable def flatState : State ℝ where
  components := [⟨1, [0], [1]⟩, ⟨1, [1], [1]⟩]
  responsibilities := []
  resets := 0
  history := []

/-- The near sample is shared between the two normal components, and the far one belongs to the
first of them; and in exact arithmetic two components share what there is. -/
theorem expect_responsible_mixed :
    (∃ factors : List (Option (Cholesky (With coarse))), factors[1]? = some none ∧
      List.Forall₂ (fun x row => IsResponsible 4 row ∧
        ((∃ norm, Shared farProblem sharedState.components factors x row norm) ∨
          Assigned farProblem sharedState.components factors x row))
        farProblem.points [[Scalar.half, 0, 0, Scalar.half], [1, 0, 0, 0]]) ∧
    ∃ total s', flatProblem.expect flatState = .done total s' ∧
      ∀ row ∈ s'.responsibilities, row.sum = 1 := by
  constructor
  · obtain ⟨factors, -, hskipped, hrows⟩ := (Problem.expect_responsible (Cholesky (With coarse))).1
      coarse coarse_documented farProblem mixedState sharedState _ rfl (by decide) expect_mixedState
    exact ⟨factors, hskipped 1 _ rfl zero_mem.1, hrows⟩
  · obtain ⟨total, s', hdone, -, -⟩ :=
      Problem.expect_of_factors (p := flatProblem) (s := flatState) fun _ _ _ => ⟨(), rfl⟩
    exact ⟨total, s', hdone, (Problem.expect_responsible Unit).2 flatProblem flatState s' total rfl
      two_ne_zero hdone⟩

end Mixtures.Em
