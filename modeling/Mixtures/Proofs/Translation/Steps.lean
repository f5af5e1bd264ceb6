import Mixtures.Proofs.Em.Shape
import Mixtures.Proofs.Em.Weights
import Mixtures.Proofs.Means
import Mixtures.Proofs.Translation.Points

/-!
# Training steps on translated samples

Training from translated samples goes through states that differ from those of the original run by
the translation of means. A component without weight keeps a mean that may not have moved along, a
placeholder for example, so the means of components with weight are compared alone:
`Component.Follows`. No step looks at the others.

* `maximize_agree`, `expect_agree`: the steps end the same way, in states that follow each other.
-/

namespace Mixtures

open Point (translate)

/-! ## Lists, entry by entry -/

section Lists

variable {β γ δ ε ζ η : Type} {R : β → γ → Prop} {S : δ → ε → Prop} {P : ζ → η → Prop}

theorem forall₂_set {xs : List β} {ys : List γ} (h : List.Forall₂ R xs ys) (i : Nat) {x : β} {y : γ}
    (hxy : R x y) : List.Forall₂ R (xs.set i x) (ys.set i y) := by
  induction h generalizing i with
  | nil => exact .nil
  | cons hhead htail ih =>
    cases i with
    | zero => exact .cons hxy htail
    | succ i => exact .cons hhead (ih i)

theorem forall₂_modify {xs : List β} {ys : List γ} (h : List.Forall₂ R xs ys) (i : Nat) {f : β → β}
    {g : γ → γ} (hfg : ∀ x y, R x y → R (f x) (g y)) :
    List.Forall₂ R (xs.modify i f) (ys.modify i g) := by
  induction h generalizing i with
  | nil => simp
  | cons hhead htail ih =>
    cases i with
    | zero => exact .cons (hfg _ _ hhead) htail
    | succ i => exact .cons hhead (ih i)

theorem forall₂_zipWith {xs : List β} {ys : List γ} {us : List δ} {vs : List ε}
    (h : List.Forall₂ R xs ys) (h' : List.Forall₂ S us vs) {f : β → δ → ζ} {g : γ → ε → η}
    (hfg : ∀ x y u v, R x y → S u v → P (f x u) (g y v)) :
    List.Forall₂ P (xs.zipWith f us) (ys.zipWith g vs) := by
  induction h generalizing us vs with
  | nil => exact .nil
  | cons hhead _ ih =>
    cases h' with
    | nil => exact .nil
    | cons hhead' htail' => exact .cons (hfg _ _ _ _ hhead hhead') (ih htail')

theorem forall₂_zipIdx {xs : List β} {ys : List γ} (h : List.Forall₂ R xs ys) (n : Nat) :
    List.Forall₂ (fun x y => R x.1 y.1 ∧ x.2 = y.2) (xs.zipIdx n) (ys.zipIdx n) := by
  induction h generalizing n with
  | nil => exact .nil
  | cons hhead _ ih => exact .cons ⟨hhead, rfl⟩ (ih (n + 1))

/-- At a position there is nothing in both lists, or there are related entries. -/
theorem getElem?_of_forall₂ {xs : List β} {ys : List γ} (h : List.Forall₂ R xs ys) (i : Nat) :
    (xs[i]? = none ∧ ys[i]? = none) ∨ ∃ x y, xs[i]? = some x ∧ ys[i]? = some y ∧ R x y := by
  induction h generalizing i with
  | nil => exact .inl ⟨rfl, rfl⟩
  | cons hhead _ ih =>
    cases i with
    | zero => exact .inr ⟨_, _, rfl, rfl, hhead⟩
    | succ i => exact ih i

theorem map_eq_map_of_forall₂ {xs : List β} {ys : List γ} (h : List.Forall₂ R xs ys) {f : β → ζ}
    {g : γ → ζ} (hfg : ∀ x y, R x y → f x = g y) : xs.map f = ys.map g := by
  induction h with
  | nil => rfl
  | cons hhead _ ih => rw [List.map_cons, List.map_cons, hfg _ _ hhead, ih]

end Lists

namespace Em

/-! ## States that follow each other -/

/-- The component that training has in the place of another one when all samples are translated. -/
structure Follows (t : Point ℝ) (c c' : Component ℝ) : Prop where
  weight_eq : c'.weight = c.weight
  covariance_eq : c'.covariance = c.covariance
  length_mean : c.mean.length = t.length
  /-- The mean has moved along, unless the component has no weight. -/
  mean_eq : ¬c.weight ≤ 0 → c'.mean = translate t c.mean

/-- Two steps end the same way, with the same value and in related states. -/
inductive Outcome.Agree {σ β : Type} (R : σ → σ → Prop) : Outcome σ β → Outcome σ β → Prop
  /-- Both are completed. -/
  | done {value : β} {s s' : σ} : R s s' → Agree R (.done value s) (.done value s')
  /-- Both give up. -/
  | gaveUp {s s' : σ} : R s s' → Agree R (.gaveUp s) (.gaveUp s')

theorem Outcome.Agree.andThen {σ β γ : Type} {R : σ → σ → Prop} {first first' : Outcome σ β}
    {next next' : β → σ → Outcome σ γ} (h : Agree R first first')
    (hnext : ∀ value s s', R s s' → Agree R (next value s) (next' value s')) :
    Agree R (first.andThen next) (first'.andThen next') := by
  cases h with
  | done hs => exact hnext _ _ _ hs
  | gaveUp hs => exact .gaveUp hs

namespace Problem

variable {F : Type}

/-- The problem with translated samples. -/
def translate (p : Problem ℝ F) (t : Point ℝ) : Problem ℝ F :=
  { p with points := p.points.map (Point.translate t) }

/-- A vector that can be added to the samples of a problem without changing any density. -/
structure Translatable (p : Problem ℝ F) (t : Point ℝ) : Prop where
  dim_eq : p.dim = t.length
  length_eq : ∀ x ∈ p.points, x.length = t.length
  points_ne : p.points ≠ []
  ignoresOrigin : p.kernel.IgnoresOrigin

/-- A state of training and one of training from translated samples. -/
structure StateFollows (p : Problem ℝ F) (t : Point ℝ) (s s' : State ℝ) : Prop where
  components : List.Forall₂ (Follows t) s.components s'.components
  rowCount : s.responsibilities.length = p.size
  responsibilities_eq : s'.responsibilities = s.responsibilities
  resets_eq : s'.resets = s.resets
  history_eq : s'.history = s.history

variable {p : Problem ℝ F} {t : Point ℝ}

theorem size_translate : (p.translate t).size = p.size := List.length_map _

namespace Translatable

variable (h : p.Translatable t)

include h

theorem size_pos : 0 < p.size := List.length_pos_iff.mpr h.points_ne

/-! ## The group as a whole -/

theorem center_eq : (p.translate t).center = Point.translate t p.center := by
  have hmean : ∀ q : Problem ℝ F, q.center =
      weightedMean q.dim (q.size : ℝ) (q.points.map fun x => ((1 : ℝ), x)) := by
    intro q
    simp only [center, weightedMean, List.foldl_map, one_mul, Exact.ofNat_eq]
  have hne : (p.size : ℝ) ≠ 0 := Nat.cast_ne_zero.mpr h.size_pos.ne'
  have hsum : ((p.points.map fun x => ((1 : ℝ), x)).map (·.1)).sum = p.size := by
    simp [Function.comp_def, size]
  rw [hmean, hmean, size_translate, ← weightedMean_translate h.dim_eq.le hne hsum, List.map_map,
    translate, List.map_map]
  rfl

theorem spread_eq : (p.translate t).spread = p.spread := by
  unfold spread
  dsimp only
  rw [h.center_eq, size_translate, translate, List.foldl_map]
  congr 1
  refine List.foldl_ext _ _ _ fun s x hx => ?_
  rw [Point.zipWith_translate (fun a b v => ?_) (h.length_eq x hx).le]
  rw [add_sub_add_right_eq_sub]

theorem farthestFromCenter_eq : (p.translate t).farthestFromCenter = p.farthestFromCenter := by
  unfold farthestFromCenter
  dsimp only
  rw [h.center_eq, translate, List.map_map]
  have hdistances : p.points.map ((fun x => Point.squaredDistance x (Point.translate t p.center)) ∘
      Point.translate t) = p.points.map fun x => Point.squaredDistance x p.center :=
    List.map_congr_left fun x hx => Point.squaredDistance_translate (h.length_eq x hx).le
  rw [hdistances]

/-! ## Explaining samples -/

theorem logTerm_eq {c c' : Component ℝ} (hc : Follows t c c') (hlive : ¬c.weight ≤ 0) {x : Point ℝ}
    (hx : x ∈ p.points) (f : F) :
    (p.translate t).logTerm (Point.translate t x) c' f = p.logTerm x c f := by
  show Scalar.ln c'.weight + p.kernel.logDensity f c'.mean (Point.translate t x) = _
  rw [hc.weight_eq, hc.mean_eq hlive, h.ignoresOrigin f t _ _ hc.length_mean (h.length_eq x hx)]
  rfl

omit h in
/-- The same components are compared with, and they have the same factors. -/
theorem others_follow {components components' : List (Component ℝ)}
    (hc : List.Forall₂ (Follows t) components components') (skip : Nat) :
    List.Forall₂ (fun e e' => (Follows t e.1 e'.1 ∧ ¬e.1.weight ≤ 0) ∧ e.2 = e'.2)
      (p.others components skip) ((p.translate t).others components' skip) := by
  unfold others
  refine List.rel_filterMap ?_ (forall₂_zipIdx hc 0)
  rintro ⟨c, i⟩ ⟨c', j⟩ ⟨hfollows, hij⟩
  dsimp only at hfollows hij ⊢
  subst hij
  have hprepare : (p.translate t).prepare c'.covariance = p.prepare c.covariance := by
    rw [hfollows.covariance_eq]
    rfl
  rw [hfollows.weight_eq, hprepare]
  split
  next hlive =>
    rw [Bool.and_eq_true, decide_eq_true_eq, decide_eq_true_eq] at hlive
    cases (p.prepare c.covariance).1 with
    | none => exact .none
    | some f => exact .some ⟨⟨hfollows, not_le.mpr hlive.2⟩, rfl⟩
  next => exact .none

/-- The same sample is explained worst. -/
theorem outlier_eq {components components' : List (Component ℝ)}
    (hc : List.Forall₂ (Follows t) components components') (skip : Nat) :
    (p.translate t).outlier components' skip = p.outlier components skip := by
  have hothers := others_follow (p := p) hc skip
  have hexplained : (p.translate t).points.map
      ((p.translate t).explained ((p.translate t).others components' skip)) =
      p.points.map (p.explained (p.others components skip)) := by
    rw [translate, List.map_map]
    refine List.map_congr_left fun x hx => ?_
    show LogMass.sum _ = LogMass.sum _
    congr 1
    refine (map_eq_map_of_forall₂ hothers ?_).symm
    rintro ⟨c, f⟩ ⟨c', f'⟩ ⟨⟨hfollows, hlive⟩, hf⟩
    obtain rfl : f = f' := hf
    exact congrArg LogMass.of (h.logTerm_eq hfollows hlive hx f).symm
  have hempty : ((p.translate t).others components' skip).isEmpty =
      (p.others components skip).isEmpty := by
    rw [Bool.eq_iff_iff, List.isEmpty_iff_length_eq_zero, List.isEmpty_iff_length_eq_zero,
      hothers.length_eq]
  unfold outlier
  dsimp only
  rw [hempty, hexplained, h.farthestFromCenter_eq]

/-! ## Resets -/

omit h in
theorem normalizeWeights_follows {components components' : List (Component ℝ)}
    (hc : List.Forall₂ (Follows t) components components') :
    List.Forall₂ (Follows t) (normalizeWeights components) (normalizeWeights components') := by
  have hweights : components'.map (·.weight) = components.map (·.weight) :=
    (map_eq_map_of_forall₂ hc fun _ _ hfollows => hfollows.weight_eq.symm).symm
  unfold normalizeWeights
  dsimp only
  rw [hweights]
  split
  next htotal =>
    rw [Bool.and_eq_true, decide_eq_true_eq] at htotal
    refine List.forall₂_map_left_iff.mpr (List.forall₂_map_right_iff.mpr (hc.imp ?_))
    intro c c' hfollows
    refine ⟨congrArg (· / _) hfollows.weight_eq, hfollows.covariance_eq, hfollows.length_mean,
      fun hlive => hfollows.mean_eq fun hdead => hlive ?_⟩
    exact div_nonpos_of_nonpos_of_nonneg hdead htotal.1.le
  next => exact hc

theorem resetComponent_follows {sample : Nat} (hsample : sample < p.size) :
    Follows t (p.resetComponent sample) ((p.translate t).resetComponent sample) := by
  have hmean : ((p.translate t).resetComponent sample).mean =
      Point.translate t (p.resetComponent sample).mean := Point.getD_translate p.points sample
  refine ⟨?_, ?_, ?_, fun _ => hmean⟩
  · show 1 / Scalar.ofNat (p.translate t).size = _
    rw [size_translate]
    rfl
  · show Square.diagonal ((p.translate t).spread.map (· + p.settings.floor)) = _
    rw [h.spread_eq]
    rfl
  · show (p.points.getD sample []).length = t.length
    exact h.length_eq _ (getD_mem hsample [])

/-- A reset moves the same component onto the same sample. -/
theorem reset_agree (component : Nat) {s s' : State ℝ} (hs : p.StateFollows t s s') :
    Outcome.Agree (p.StateFollows t) (p.reset component s)
      ((p.translate t).reset component s') := by
  unfold reset
  dsimp only
  rw [hs.resets_eq, h.outlier_eq hs.components]
  have hsettings : (p.translate t).settings = p.settings := rfl
  rw [hsettings]
  split
  · exact .gaveUp ⟨hs.components, hs.rowCount, hs.responsibilities_eq, rfl, hs.history_eq⟩
  · have hsample := outlier_lt h.points_ne s.components component
    refine .done ⟨?_, hs.rowCount, hs.responsibilities_eq, rfl, congrArg (_ :: ·) hs.history_eq⟩
    exact normalizeWeights_follows
      (forall₂_set hs.components component (h.resetComponent_follows hsample))

theorem resetAll_agree (components : List Nat) {s s' : State ℝ} (hs : p.StateFollows t s s') :
    Outcome.Agree (p.StateFollows t) (p.resetAll components s)
      ((p.translate t).resetAll components s') := by
  induction components generalizing s s' with
  | nil => exact .done hs
  | cons component components ih =>
    exact (h.reset_agree component hs).andThen fun _ _ _ hs => ih hs

/-! ## The maximization step -/

omit h in
theorem weighted_translate (column : List ℝ) :
    (p.translate t).weighted column =
      (p.weighted column).map fun entry => (entry.1, Point.translate t entry.2) := by
  unfold weighted
  show (column.zip (p.points.map (Point.translate t))).filter _ = _
  rw [List.zip_map_right, List.filter_map]
  rfl

/-- An estimate from the same responsibilities follows. -/
theorem estimate_follows {column : List ℝ} (hlength : column.length = p.size) :
    Option.Rel (Follows t) (p.estimate column) ((p.translate t).estimate column) := by
  unfold estimate
  dsimp only
  split
  next hmass =>
    rw [Bool.and_eq_true, decide_eq_true_eq, Exact.sum_eq] at hmass
    have hbound : (0 : ℝ) ≤ collapseBound := by
      rw [collapseBound, Exact.ofNat_eq]
      positivity
    have hmean := weightedMean_translate h.dim_eq.le (hbound.trans_lt hmass.2).ne'
      (sum_weighted (p := p) hlength)
    have hmem : ∀ entry ∈ p.weighted column, entry.2.length = t.length :=
      fun entry hentry => h.length_eq _ (mem_points_of_mem_weighted hentry)
    rw [weighted_translate, size_translate, Exact.sum_eq]
    refine .some ⟨rfl, ?_, ?_, fun _ => hmean⟩
    · dsimp only
      show weightedCovariance p.dim p.settings.form p.settings.floor _
        (List.map _ (List.map _ (p.weighted column))) = _
      rw [List.map_map]
      congr 1
      refine List.map_congr_left fun entry hentry => ?_
      show (entry.1, (Point.translate t entry.2).zipWith (· - ·) (weightedMean p.dim _ _)) = _
      rw [hmean, Point.zipWith_translate (fun a b v => add_sub_add_right_eq_sub a b v)
        (hmem entry hentry).le]
    · rw [← h.dim_eq] at hmem ⊢
      exact length_weightedMean hmem
  next => exact .none

omit h in
theorem collapsed_eq_of_rel {estimates estimates' : List (Option (Component ℝ))}
    (hrel : List.Forall₂ (Option.Rel (Follows t)) estimates estimates') :
    collapsed estimates' = collapsed estimates := by
  have hcollapsed : ∀ es : List (Option (Component ℝ)),
      collapsed es = ((es.map Option.isNone).zipIdx.filter (·.1)).map (·.2) := by
    intro es
    rw [List.zipIdx_map, List.filter_map, List.map_map]
    rfl
  rw [hcollapsed, hcollapsed, map_eq_map_of_forall₂ hrel]
  intro e e' he
  cases he <;> rfl

omit h in
theorem silence_follows (positions : List Nat) {components components' : List (Component ℝ)}
    (hc : List.Forall₂ (Follows t) components components') :
    List.Forall₂ (Follows t) (p.silence positions components)
      ((p.translate t).silence positions components') := by
  unfold silence
  induction positions generalizing components components' with
  | nil => exact hc
  | cons position positions ih =>
    refine ih (forall₂_modify hc position fun c c' hfollows => ?_)
    exact ⟨rfl, rfl, hfollows.length_mean, fun hlive => absurd le_rfl hlive⟩

/-- **A maximization step** on translated samples ends the same way. -/
theorem maximize_agree {s s' : State ℝ} (hs : p.StateFollows t s s') :
    Outcome.Agree (p.StateFollows t) (p.maximize s) ((p.translate t).maximize s') := by
  have hestimates : List.Forall₂ (Option.Rel (Follows t)) (p.estimates s.responsibilities)
      ((p.translate t).estimates s'.responsibilities) := by
    rw [hs.responsibilities_eq]
    refine List.forall₂_map_left_iff.mpr (List.forall₂_map_right_iff.mpr
      (List.forall₂_same.mpr fun component _ => h.estimate_follows ?_))
    rw [column, List.length_map, hs.rowCount]
  have hestimated : p.StateFollows t { s with components := p.estimated s }
      { s' with components := (p.translate t).estimated s' } := by
    refine ⟨?_, hs.rowCount, hs.responsibilities_eq, hs.resets_eq, hs.history_eq⟩
    refine forall₂_zipWith hs.components hestimates fun c c' e e' hc he => ?_
    cases he with
    | none => exact hc
    | some hnew => exact hnew
  unfold maximize
  dsimp only
  rw [collapsed_eq_of_rel hestimates, size_translate]
  have hcount : (p.translate t).count = p.count := rfl
  rw [hcount]
  refine Outcome.Agree.andThen ?_ fun _ s s' hs => .done
    ⟨normalizeWeights_follows hs.components, hs.rowCount, hs.responsibilities_eq, hs.resets_eq,
      hs.history_eq⟩
  split
  · exact h.resetAll_agree _ hestimated
  · exact .done ⟨silence_follows _ hestimated.components, hs.rowCount, hs.responsibilities_eq,
      hs.resets_eq, hs.history_eq⟩

/-! ## The expectation step -/

omit h in
/-- Preparing a component gives the same factor. -/
theorem prepareAt_follows (component : Nat) {s s' : State ℝ} (hs : p.StateFollows t s s') :
    ((p.translate t).prepareAt component s').1 = (p.prepareAt component s).1 ∧
      p.StateFollows t (p.prepareAt component s).2 ((p.translate t).prepareAt component s').2 := by
  unfold prepareAt
  rcases getElem?_of_forall₂ hs.components component with
    ⟨hnone, hnone'⟩ | ⟨c, c', hget, hget', hfollows⟩
  · rw [hnone, hnone']
    exact ⟨rfl, hs⟩
  · have hprepare : (p.translate t).prepare c'.covariance = p.prepare c.covariance := by
      rw [hfollows.covariance_eq]
      rfl
    rw [hget, hget']
    dsimp only
    rw [hprepare]
    refine ⟨rfl, ?_, hs.rowCount, hs.responsibilities_eq, hs.resets_eq, hs.history_eq⟩
    exact forall₂_modify hs.components component fun d d' hd =>
      ⟨hd.weight_eq, rfl, hd.length_mean, hd.mean_eq⟩

theorem factorAt_agree (component : Nat) {s s' : State ℝ} (hs : p.StateFollows t s s') :
    Outcome.Agree (p.StateFollows t) (p.factorAt component s)
      ((p.translate t).factorAt component s') := by
  unfold factorAt
  rcases getElem?_of_forall₂ hs.components component with
    ⟨hnone, hnone'⟩ | ⟨c, c', hget, hget', hfollows⟩
  · rw [hnone, hnone']
    exact .done hs
  rw [hget, hget']
  dsimp only
  rw [hfollows.weight_eq]
  split
  · exact .done hs
  obtain ⟨hfactor, hprepared⟩ := prepareAt_follows component hs
  revert hfactor hprepared
  rcases p.prepareAt component s with ⟨f, s₁⟩
  rcases (p.translate t).prepareAt component s' with ⟨f', s₁'⟩
  dsimp only
  rintro rfl hprepared
  cases f' with
  | some f => exact .done hprepared
  | none =>
    -- the component is reset and prepared again
    refine (h.reset_agree component hprepared).andThen fun _ s₂ s₂' hs₂ => ?_
    obtain ⟨hfactor, hagain⟩ := prepareAt_follows component hs₂
    revert hfactor hagain
    rcases p.prepareAt component s₂ with ⟨f, s₃⟩
    rcases (p.translate t).prepareAt component s₂' with ⟨f', s₃'⟩
    dsimp only
    rintro rfl hagain
    cases f' with
    | some f => exact .done hagain
    | none => exact .gaveUp hagain

theorem factorAll_agree (components : List Nat) {s s' : State ℝ} (hs : p.StateFollows t s s') :
    Outcome.Agree (p.StateFollows t) (p.factorAll components s)
      ((p.translate t).factorAll components s') := by
  induction components generalizing s s' with
  | nil => exact .done hs
  | cons component components ih =>
    refine (h.factorAt_agree component hs).andThen fun f _ _ hs => ?_
    exact (ih hs).andThen fun fs _ _ hs => .done hs

/-- With factors for components with weight alone, a sample is explained in the same way. -/
theorem explain_eq {components components' : List (Component ℝ)}
    (hc : List.Forall₂ (Follows t) components components') {factors : List (Option F)}
    (hlive : ∀ i f, factors[i]? = some (some f) → HasWeight components i) {x : Point ℝ}
    (hx : x ∈ p.points) :
    (p.translate t).explain components' factors (Point.translate t x) =
      p.explain components factors x := by
  have hterms : (p.translate t).logTerms components' factors (Point.translate t x) =
      p.logTerms components factors x := by
    unfold logTerms
    refine List.ext_getElem? fun i => ?_
    rw [List.getElem?_zipWith, List.getElem?_zipWith]
    rcases getElem?_of_forall₂ hc i with ⟨hnone, hnone'⟩ | ⟨c, c', hget, hget', hfollows⟩
    · rw [hnone, hnone']
    · rw [hget, hget']
      cases hf : factors[i]? with
      | none => rfl
      | some found =>
        cases found with
        | none => rfl
        | some f =>
          obtain ⟨d, hd, hdlive⟩ := hlive i f hf
          obtain rfl : c = d := Option.some.inj (hget.symm.trans hd)
          exact congrArg (fun l => some (LogMass.of l)) (h.logTerm_eq hfollows hdlive hx f)
  have hnearest : nearestLive components' (Point.translate t x) = nearestLive components x := by
    unfold nearestLive
    have hdistances : components'.map (liveDistance (Point.translate t x)) =
        components.map (liveDistance x) := by
      refine (map_eq_map_of_forall₂ hc fun c c' hfollows => ?_).symm
      unfold liveDistance
      rw [hfollows.weight_eq]
      split
      · rfl
      next hdlive =>
        rw [hfollows.mean_eq hdlive, Point.squaredDistance_translate (h.length_eq x hx).le]
    rw [hdistances]
  unfold explain
  dsimp only
  rw [hterms, hnearest]
  rfl

/-- Sharing out the samples gives the same responsibilities and the same log-likelihood. -/
theorem distribute_agree {s s' : State ℝ} (hs : p.StateFollows t s s') {factors : List (Option F)}
    (hlive : ∀ i f, factors[i]? = some (some f) → HasWeight s.components i) :
    ((p.translate t).distribute factors s').1 = (p.distribute factors s).1 ∧
      p.StateFollows t (p.distribute factors s).2 ((p.translate t).distribute factors s').2 := by
  have hrows : (p.translate t).points.map ((p.translate t).explain s'.components factors) =
      p.points.map (p.explain s.components factors) := by
    rw [translate, List.map_map]
    exact List.map_congr_left fun x hx => h.explain_eq hs.components hlive hx
  have hcount : (p.points.map (p.explain s.components factors)).length = p.size :=
    List.length_map _
  unfold distribute
  dsimp only
  rw [hrows]
  refine ⟨rfl, ?_⟩
  split
  · exact ⟨hs.components, (List.length_map _).trans hcount, rfl, hs.resets_eq, hs.history_eq⟩
  · exact ⟨hs.components, (List.length_map _).trans hcount, rfl, hs.resets_eq,
      congrArg (_ :: ·) hs.history_eq⟩

/-- **An expectation step** on translated samples ends the same way, with the
same log-likelihood. -/
theorem expect_agree {support : Finset Nat} (hosts : p.Hosts support) {s s' : State ℝ}
    (hs : p.StateFollows t s s') :
    Outcome.Agree (p.StateFollows t) (p.expect s) ((p.translate t).expect s') := by
  have hcount : (p.translate t).count = p.count := rfl
  have hfactors := h.factorAll_agree (List.range p.count) hs
  have hkept := factorAll_tracks (tracks_hasWeight hosts) (List.range p.count) s
  unfold expect
  rw [hcount]
  generalize (p.translate t).factorAll (List.range p.count) s' = outcome' at hfactors
  cases hdone : p.factorAll (List.range p.count) s with
  | gaveUp s₁ =>
    rw [hdone] at hfactors
    cases hfactors with
    | gaveUp hs₁ => exact .gaveUp hs₁
  | done factors s₁ =>
    rw [hdone] at hfactors hkept
    obtain ⟨-, -, hfound⟩ := factors_of_factorAll_done hdone
    have hlive : ∀ i f, factors[i]? = some (some f) → HasWeight s₁.components i :=
      fun i f hf => hkept i ((hfound i (some f) hf).2 rfl)
    cases hfactors with
    | done hs₁ =>
      obtain ⟨htotal, hdistributed⟩ := h.distribute_agree hs₁ hlive
      dsimp only [Outcome.andThen]
      rw [htotal]
      exact .done hdistributed

end Translatable

end Problem

end Em

end Mixtures
