import AdaptiveLowpan.HmmFilter
import AdaptiveLowpan.LearnedMoments

/-! # What the emissions have learned

In exact arithmetic the mean of a state is, after any run, the average of the observations
by the share that the state had in each, and its variance is never below their spread. -/

namespace AdaptiveLowpan
open CDouble ProbabilityVectors LearnedMoments

variable [MathFunctions]

/-- How fast a state learns in a step of a run. -/
noncomputable def responsibility (hmm : Hmm ℝ) (observations : ℕ → NetworkMetrics ℝ)
    (state : AdaptiveState) (k : ℕ) : ℝ :=
  hmm.emissionAlpha * (hmmTrace hmm observations (k + 1)).probability state

/-- A variance learns the whole of a square distance, and may be raised to its floor. -/
theorem le_updateEmissions_variance (hmm : Hmm ℝ) (observation : NetworkMetrics ℝ)
    (state : AdaptiveState) (metric : AdaptiveMetric) :
    (1 - hmm.emissionAlpha * hmm.probability state) * hmm.emissionVariance state metric +
        hmm.emissionAlpha * hmm.probability state *
          (observation metric - hmm.emissionMean state metric) ^ 2 ≤
      (updateEmissions hmm observation).emissionVariance state metric := by
  have hone : (lit 1 : ℝ) = 1 := Rat.cast_one
  rw [updateEmissions]
  simp only [hone, sq, ← mul_assoc]
  split
  · rename_i hlow
    exact hlow.le
  · exact le_rfl

section Run

variable {hmm : Hmm ℝ} (observations : ℕ → NetworkMetrics ℝ) (state : AdaptiveState)
  (metric : AdaptiveMetric) (n : ℕ)

theorem hmmTrace_emissionAlpha :
    (hmmTrace hmm observations n).emissionAlpha = hmm.emissionAlpha := by
  induction n with
  | zero => rfl
  | succ n ih => exact ih

theorem responsibility_mem (hexp : ∀ x : ℝ, 0 < exp x) (hgood : hmm.Good) :
    responsibility hmm observations state n ∈ Set.Icc 0 1 := by
  have hp := mem_Icc_of_mem_stdSimplex
    (hmmTrace_good hexp hgood observations (n + 1)).probability state
  exact ⟨mul_nonneg hgood.emissionAlpha.1.le hp.1,
    mul_le_one₀ hgood.emissionAlpha.2.le hp.1 hp.2⟩

theorem hmmTrace_emissionMean_succ :
    (hmmTrace hmm observations (n + 1)).emissionMean state metric =
      (hmmTrace hmm observations n).emissionMean state metric +
        responsibility hmm observations state n *
          (observations n metric - (hmmTrace hmm observations n).emissionMean state metric) := by
  rw [responsibility, ← hmmTrace_emissionAlpha observations n]
  rfl

theorem le_hmmTrace_emissionVariance_succ :
    (1 - responsibility hmm observations state n) *
        (hmmTrace hmm observations n).emissionVariance state metric +
      responsibility hmm observations state n *
        (observations n metric - (hmmTrace hmm observations n).emissionMean state metric) ^ 2 ≤
      (hmmTrace hmm observations (n + 1)).emissionVariance state metric := by
  rw [responsibility, ← hmmTrace_emissionAlpha observations n]
  exact le_updateEmissions_variance (updateTransition
    (selected (hmmTrace hmm observations n) (observations n)) (hmmTrace hmm observations n).state
    (selected (hmmTrace hmm observations n) (observations n)).state) (observations n) state metric

/-- What a state has learned about a metric after a run of any length. -/
structure EmissionLearned (hmm : Hmm ℝ) (observations : ℕ → NetworkMetrics ℝ)
    (state : AdaptiveState) (metric : AdaptiveMetric) (n : ℕ) : Prop where
  weights : retained (responsibility hmm observations state) n +
    ∑ k ∈ Finset.range n, share (responsibility hmm observations state) n k = 1
  mean : (hmmTrace hmm observations n).emissionMean state metric =
    retained (responsibility hmm observations state) n * hmm.emissionMean state metric +
      ∑ k ∈ Finset.range n, share (responsibility hmm observations state) n k *
        observations k metric
  variance : retained (responsibility hmm observations state) n *
      (hmm.emissionVariance state metric + (hmm.emissionMean state metric -
        (hmmTrace hmm observations n).emissionMean state metric) ^ 2) +
      ∑ k ∈ Finset.range n, share (responsibility hmm observations state) n k *
        (observations k metric - (hmmTrace hmm observations n).emissionMean state metric) ^ 2 ≤
    (hmmTrace hmm observations n).emissionVariance state metric

/-- From any good model, over any observations. -/
theorem hmmTrace_emission_learned (hexp : ∀ x : ℝ, 0 < exp x) (hgood : hmm.Good) :
    EmissionLearned hmm observations state metric n := by
  let mean := fun k => (hmmTrace hmm observations k).emissionMean state metric
  let variance := fun k => (hmmTrace hmm observations k).emissionVariance state metric
  have hmean (k : ℕ) : mean k = average (responsibility hmm observations state) (mean 0)
      (observations · metric) k :=
    eq_average (fun k => hmmTrace_emissionMean_succ observations state metric k) k
  have hspread : spread (responsibility hmm observations state) (mean 0) (variance 0)
      (observations · metric) n ≤ variance n :=
    spread_le (fun k => responsibility_mem observations state k hexp hgood) hmean
      (fun k => le_hmmTrace_emissionVariance_succ observations state metric k) n
  refine ⟨?_, hmean n, ?_⟩
  · have hone : average (responsibility hmm observations state) 1 (fun _ => 1) n = 1 :=
      average_const 1 n
    simpa [average] using hone
  · rw [spread, ← hmean n] at hspread
    exact hspread

end Run

omit [MathFunctions] in
theorem hmmTrace_emission_learned_uniformModel :
    letI : MathFunctions := ⟨Real.log, Real.exp⟩
    EmissionLearned uniformModel (fun _ _ => 3) .congested .loss 2 := by
  let _ : MathFunctions := ⟨Real.log, Real.exp⟩
  exact hmmTrace_emission_learned (fun _ _ => 3) .congested .loss 2 Real.exp_pos uniformModel_good

end AdaptiveLowpan
