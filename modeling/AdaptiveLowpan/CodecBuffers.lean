import AdaptiveLowpan.CodecHeader
import AdaptiveLowpan.WaveletBounds

/-! # Decoding into a buffer

Whether a representation is decoded does not depend on what the sample buffer held
before, only on its capacity, and the buffer keeps its size. -/

namespace AdaptiveLowpan
open ByteWords CheckedMemory CDouble CFloat

variable {F D : Type} [CDouble D] [CFloat F D]

/-- An accepted header announces no more samples than there is room for. -/
theorem readHeader_bounds {input : Bytes} {sampleCapacity : ℕ} {h : CodecHeader F}
    (hread : readHeader input sampleCapacity = .ok h) :
    h.count ≤ maxWindow ∧ h.count ≤ sampleCapacity := by
  obtain ⟨-, haccepted, -⟩ := readHeader_eq_ok_iff.mp hread
  exact ⟨haccepted.inRange.count_le, haccepted.inRange.room⟩

/-- The loop over the pairs comes to the same end over buffers of the same size. -/
theorem storeCoefficients_outcome (input : Bytes) (scale : F) (count remaining i : ℕ)
    (previous : Option UInt16) {samples samples' : List F}
    (hlength : samples.length = samples'.length) :
    (storeCoefficients input scale count remaining i previous samples).1 =
        (storeCoefficients input scale count remaining i previous samples').1 ∧
      (storeCoefficients input scale count remaining i previous samples).2.length =
        samples.length := by
  induction remaining generalizing i previous samples samples' with
  | zero => exact ⟨rfl, rfl⟩
  | succ remaining ih =>
    rw [storeCoefficients, storeCoefficients]
    split
    · exact ⟨rfl, rfl⟩
    rename_i index quantized hpair
    split
    · exact ⟨rfl, rfl⟩
    by_cases hroom : index.toNat < samples.length
    · rw [writeAt_of_lt _ hroom, writeAt_of_lt _ (hlength ▸ hroom)]
      have hset : (samples.set index.toNat (mulInt (toInt16 quantized) scale)).length =
          (samples'.set index.toNat (mulInt (toInt16 quantized) scale)).length := by
        rw [List.length_set, List.length_set, hlength]
      obtain ⟨hsame, hkept⟩ := ih (i + 1) (some index) hset
      exact ⟨hsame, hkept.trans List.length_set⟩
    · rw [writeAt, if_neg hroom, writeAt, if_neg (hlength ▸ hroom)]
      exact ⟨rfl, rfl⟩

theorem codecUnpack_outcome (input : Bytes) {samples samples' : List F}
    (hlength : samples.length = samples'.length) :
    (codecUnpack input samples).1 = (codecUnpack input samples').1 ∧
      (codecUnpack input samples).2.length = samples.length := by
  rw [codecUnpack, codecUnpack, hlength]
  cases hread : (readHeader input samples'.length : Outcome (CodecHeader F)) with
  | error e => exact ⟨rfl, hlength⟩
  | ok h =>
    have hroom := (readHeader_bounds hread).2
    have hclear : (List.replicate h.count (zeroFloat : F)).length ≤ samples'.length := by
      rwa [List.length_replicate]
    simp only
    rw [overwrite_of_le (hlength ▸ hclear), overwrite_of_le hclear]
    have hcleared : (List.replicate h.count (zeroFloat : F) ++
        samples.drop (List.replicate h.count (zeroFloat : F)).length).length = samples.length := by
      rw [List.length_append, List.length_drop]
      omega
    have hcleared' : (List.replicate h.count (zeroFloat : F) ++
        samples'.drop (List.replicate h.count (zeroFloat : F)).length).length =
        samples'.length := by
      rw [List.length_append, List.length_drop]
      omega
    obtain ⟨hsame, hkept⟩ := storeCoefficients_outcome input h.scale h.count h.nonzero 0 none
      (hcleared.trans (hlength.trans hcleared'.symm))
    dsimp only
    generalize storeCoefficients input h.scale h.count h.nonzero 0 none _ = r at hsame hkept ⊢
    generalize storeCoefficients input h.scale h.count h.nonzero 0 none _ = r' at hsame ⊢
    obtain ⟨result, stored⟩ := r
    obtain ⟨result', stored'⟩ := r'
    obtain rfl : result = result' := hsame
    have hstored : stored.length = samples'.length := hkept.trans (hcleared.trans hlength)
    cases result with
    | error e => exact ⟨rfl, hstored⟩
    | ok u => exact ⟨rfl, hstored⟩

/-- An inverse transform comes to the same end over buffers that hold its coefficients. -/
theorem db4Inverse_outcome {count : ℕ} (levels : ℕ) {coefficients coefficients' scratch : List F}
    (hc : count ≤ coefficients.length) (hc' : count ≤ coefficients'.length)
    (hs : count ≤ scratch.length) :
    (db4Inverse coefficients count levels scratch).map (fun _ => ()) =
        (db4Inverse coefficients' count levels scratch).map (fun _ => ()) ∧
      ∀ decoded, db4Inverse coefficients count levels scratch = .ok decoded →
        decoded.length = coefficients.length := by
  by_cases hgeometry : Geometry count levels
  · obtain ⟨decoded, hok, hlength⟩ := db4Inverse_total coefficients scratch hgeometry hc hs
    obtain ⟨decoded', hok', -⟩ := db4Inverse_total coefficients' scratch hgeometry hc' hs
    rw [hok, hok']
    refine ⟨rfl, ?_⟩
    intro other hother
    cases hother
    exact hlength
  · rw [db4Inverse, db4Inverse]
    cases hvalid : validateTransform count levels scratch.length with
    | error e =>
      refine ⟨rfl, ?_⟩
      intro decoded hok
      cases hok
    | ok _ => exact absurd ((validateTransform_eq_ok_iff hs).mp hvalid) hgeometry

theorem codecUnpack_bounds {input : Bytes} {samples samples' : List F} {h : CodecHeader F}
    (hunpack : codecUnpack input samples = (.ok h, samples')) :
    h.count ≤ maxWindow ∧ h.count ≤ samples.length := by
  rw [codecUnpack] at hunpack
  split at hunpack
  · cases hunpack
  rename_i header hread
  split at hunpack
  · cases hunpack
  split at hunpack
  · cases hunpack
  · cases hunpack
    exact readHeader_bounds hread

theorem codecDecode_outcome (input : Bytes) {out out' : DecodeTarget F D}
    (hlength : out.samples.length = out'.samples.length) :
    (codecDecode input out).1 = (codecDecode input out').1 ∧
      (codecDecode input out).2.samples.length = out.samples.length := by
  obtain ⟨hsame, hkept⟩ := codecUnpack_outcome input hlength
  obtain ⟨-, hkept'⟩ := codecUnpack_outcome input hlength.symm
  rw [codecDecode, codecDecode]
  rcases hunpack : codecUnpack input out.samples with ⟨r, samples⟩
  rcases hunpack' : codecUnpack input out'.samples with ⟨r', samples'⟩
  rw [hunpack] at hsame hkept
  rw [hunpack'] at hsame hkept'
  obtain rfl : r = r' := hsame
  cases r with
  | error e => exact ⟨rfl, hkept⟩
  | ok h =>
    obtain ⟨hmax, hroom⟩ := codecUnpack_bounds hunpack
    have hscratch := le_length_scratch (F := F) hmax
    have hc : h.count ≤ samples.length := hroom.trans_eq hkept.symm
    have hc' : h.count ≤ samples'.length := hroom.trans_eq (hlength.trans hkept'.symm)
    obtain ⟨hend, hdecoded⟩ := db4Inverse_outcome h.levels.toNat hc hc' hscratch
    simp only
    cases hinverse : db4Inverse samples h.count h.levels.toNat
        (List.replicate maxWindow zeroFloat) with
    | error e =>
      cases hinverse' : db4Inverse samples' h.count h.levels.toNat
          (List.replicate maxWindow zeroFloat) with
      | error e' =>
        rw [hinverse, hinverse'] at hend
        cases hend
        exact ⟨rfl, hkept⟩
      | ok decoded' =>
        rw [hinverse, hinverse'] at hend
        cases hend
    | ok decoded =>
      cases hinverse' : db4Inverse samples' h.count h.levels.toNat
          (List.replicate maxWindow zeroFloat) with
      | error e' =>
        rw [hinverse, hinverse'] at hend
        cases hend
      | ok decoded' => exact ⟨rfl, (hdecoded decoded hinverse).trans hkept⟩

end AdaptiveLowpan
