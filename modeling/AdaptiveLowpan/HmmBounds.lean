import AdaptiveLowpan.HmmInit
import AdaptiveLowpan.RecoveryRule

/-! # Learning stays bounded

Runs of any length from a good model, over observations in the range of the normaliser. -/

namespace AdaptiveLowpan
open CDouble ProbabilityVectors

/-- A bound on the deviation of an observation from a mean that started at `mean₀`. -/
noncomputable def deviationBound (mean₀ : ℝ) : ℝ := 6 + max |mean₀| 6

/-- The intervals that a learned emission stays in. -/
structure EmissionBounded (mean₀ variance₀ minVariance mean variance : ℝ) : Prop where
  mean : mean ∈ Set.Icc (min mean₀ (-6)) (max mean₀ 6)
  variance : variance ∈ Set.Icc (min variance₀ minVariance)
    (max (max variance₀ minVariance) (deviationBound mean₀ ^ 2))

theorem EmissionBounded.initial (mean variance minVariance : ℝ) :
    EmissionBounded mean variance minVariance mean variance where
  mean := ⟨min_le_left _ _, le_max_left _ _⟩
  variance := ⟨min_le_left _ _, (le_max_left _ _).trans (le_max_left _ _)⟩

theorem sq_deviation_le {mean₀ mean x : ℝ} (hmean : mean ∈ Set.Icc (min mean₀ (-6)) (max mean₀ 6))
    (hx : x ∈ Set.Icc (-6) 6) : (x - mean) * (x - mean) ≤ deviationBound mean₀ ^ 2 := by
  have habs : |x - mean| ≤ deviationBound mean₀ := by
    have hlow : -max |mean₀| 6 ≤ min mean₀ (-6) := by
      apply le_min
      · exact (neg_le_neg (le_max_left _ _)).trans (neg_abs_le mean₀)
      · exact neg_le_neg (le_max_right _ _)
    have hhigh : max mean₀ 6 ≤ max |mean₀| 6 := max_le_max_right 6 (le_abs_self mean₀)
    rw [deviationBound, abs_le]
    constructor
    · linarith [hmean.2, hx.1]
    · linarith [hmean.1, hx.2]
  have hsquare := mul_self_le_mul_self (abs_nonneg (x - mean)) habs
  rw [abs_mul_abs_self] at hsquare
  rw [sq]
  exact hsquare

/-- How fast a state learns: never faster than by the whole deviation. -/
theorem rate_mem_Icc {hmm : Hmm ℝ} (hgood : hmm.Good) (state : AdaptiveState) :
    hmm.emissionAlpha * hmm.probability state ∈ Set.Icc 0 1 := by
  have hp := mem_Icc_of_mem_stdSimplex hgood.probability state
  constructor
  · exact mul_nonneg hgood.emissionAlpha.1.le hp.1
  · exact mul_le_one₀ hgood.emissionAlpha.2.le hp.1 hp.2

section Run

variable [MathFunctions]

theorem updateEmissions_bounded {hmm : Hmm ℝ} (hgood : hmm.Good) {observation : NetworkMetrics ℝ}
    {state : AdaptiveState} {metric : AdaptiveMetric} {mean₀ variance₀ : ℝ}
    (hobservation : observation metric ∈ Set.Icc (-6) 6)
    (h : EmissionBounded mean₀ variance₀ hmm.minVariance (hmm.emissionMean state metric)
      (hmm.emissionVariance state metric)) :
    EmissionBounded mean₀ variance₀ hmm.minVariance
      ((updateEmissions hmm observation).emissionMean state metric)
      ((updateEmissions hmm observation).emissionVariance state metric) := by
  have hrate := rate_mem_Icc hgood state
  constructor
  · have hrange : observation metric ∈ Set.Icc (min mean₀ (-6)) (max mean₀ 6) :=
      ⟨(min_le_right _ _).trans hobservation.1, hobservation.2.trans (le_max_right _ _)⟩
    exact towards_mem_Icc hrate h.mean hrange
  · have hdeviation := sq_deviation_le h.mean hobservation
    have hspread := mean_mem_Icc hrate
      ⟨(hgood.emissionVariance_pos state metric).le, h.variance.2⟩
      ⟨mul_self_nonneg (observation metric - hmm.emissionMean state metric),
        hdeviation.trans (le_max_right (max variance₀ hmm.minVariance) _)⟩
    have hfloor := minVariance_le_updateEmissions hmm observation state metric
    refine ⟨(min_le_right _ _).trans hfloor, ?_⟩
    rw [updateEmissions]
    simp only
    split
    · exact (le_max_right _ _).trans (le_max_left _ _)
    · rw [lit_one, mul_assoc]
      exact hspread.2

/-- Over any run, every mean and every variance stays in its interval, whatever states are
selected. -/
theorem hmmTrace_emissions_bounded (hexp : ∀ x : ℝ, 0 < exp x) {hmm : Hmm ℝ} (hgood : hmm.Good)
    {observations : ℕ → NetworkMetrics ℝ} {n : ℕ}
    (hrange : ∀ t < n, ∀ metric, observations t metric ∈ Set.Icc (-6) 6)
    (state : AdaptiveState) (metric : AdaptiveMetric) :
    EmissionBounded (hmm.emissionMean state metric) (hmm.emissionVariance state metric)
      hmm.minVariance ((hmmTrace hmm observations n).emissionMean state metric)
      ((hmmTrace hmm observations n).emissionVariance state metric) := by
  have hrun : (hmmTrace hmm observations n).Good ∧
      (hmmTrace hmm observations n).minVariance = hmm.minVariance ∧
      EmissionBounded (hmm.emissionMean state metric) (hmm.emissionVariance state metric)
        hmm.minVariance ((hmmTrace hmm observations n).emissionMean state metric)
        ((hmmTrace hmm observations n).emissionVariance state metric) := by
    induction n with
    | zero => exact ⟨hgood, rfl, .initial _ _ _⟩
    | succ n ih =>
      obtain ⟨hgood', hmin, hbounded⟩ := ih fun t ht => hrange t (Nat.lt_succ_of_lt ht)
      have hnext := hmmStep_learned (observations n) hexp hgood'
      have hselected := updateTransition_good (selected_good (observations n) hexp hgood')
        (hmmTrace hmm observations n).state
        (selected (hmmTrace hmm observations n) (observations n)).state
      refine ⟨hnext, hmin, ?_⟩
      rw [← hmin] at hbounded ⊢
      exact updateEmissions_bounded hselected (hrange n (Nat.lt_succ_self n) metric) hbounded
  exact hrun.2.2

end Run

theorem hmmTrace_emissions_bounded_uniformModel :
    letI : MathFunctions := ⟨Real.log, Real.exp⟩
    EmissionBounded 0 1 1
      ((hmmTrace uniformModel (fun _ _ => 3) 2).emissionMean .congested .loss)
      ((hmmTrace uniformModel (fun _ _ => 3) 2).emissionVariance .congested .loss) := by
  let _ : MathFunctions := ⟨Real.log, Real.exp⟩
  have hthree : (3 : ℝ) ∈ Set.Icc (-6) 6 := by
    constructor <;> norm_num
  exact hmmTrace_emissions_bounded Real.exp_pos uniformModel_good (fun _ _ _ => hthree)
    .congested .loss

end AdaptiveLowpan
