import Mathlib.Tactic

/-!
# Block lengths

How many frames a block of the source becomes at the sample rate of the device is
computed in three places. The arguments are positive ints, so a division truncates
to the exact quotient unless the product before it has wrapped around.
-/

namespace AudioOutput
namespace BlockLength

/-- What a 32-bit int holds after arithmetic. -/
def wrap32 (n : ℤ) : ℤ := n.bmod (2^32)

def wrap64 (n : ℤ) : ℤ := n.bmod (2^64)

/-- `output_frames` of `SampleFormatConverter`. -/
def converterFrames (inputFrames inputSr outputSr : ℤ) : ℤ :=
  if inputSr ≠ outputSr then
    let resamplerLength := (wrap32 (inputFrames*outputSr)).tdiv inputSr
    if resamplerLength = 0 then inputFrames else resamplerLength
  else inputFrames

/-- `destination_frames` of `OutputWorkerThread`, with the cast to `int64_t`. -/
def workerFrames (sourceFrames sourceSr destinationSr : ℤ) : ℤ :=
  wrap32 ((wrap64 (sourceFrames*destinationSr)).tdiv sourceSr)

/-- `output_frames` of `OutputDeviceImplementation`. -/
def deviceFrames (inputFrames inputSr outputSr : ℤ) : ℤ := (wrap32 (inputFrames*outputSr)).tdiv inputSr

theorem wrap32_of_lt {n : ℤ} (hn : 0 ≤ n) (h : n < 2^31) : wrap32 n = n :=
  Int.bmod_eq_of_le (by omega) (by omega)

theorem wrap32_natCast {n : ℕ} (h : n < 2^31) : wrap32 n = n := wrap32_of_lt (by positivity) (by exact_mod_cast h)

theorem wrap64_of_lt {n : ℤ} (hn : 0 ≤ n) (h : n < 2^63) : wrap64 n = n :=
  Int.bmod_eq_of_le (by omega) (by omega)

theorem wrap32_of_ge {n : ℤ} (h : 2^31 ≤ n) : wrap32 n ≤ n-2^32 := by
  unfold wrap32 Int.bmod
  dsimp only
  split <;> omega

section Quotient

variable {frames sr sr' : ℤ} (hframes : 0 < frames) (hsr : 0 < sr) (hsr' : 0 < sr')
include hframes hsr hsr'

omit hsr in
theorem deviceFrames_of_lt (h : frames*sr' < 2^31) : deviceFrames frames sr sr' = frames*sr'/sr := by
  have hpos : 0 ≤ frames*sr' := by positivity
  rw [deviceFrames,wrap32_of_lt hpos h,Int.tdiv_eq_ediv_of_nonneg hpos]

omit hframes hsr' in
theorem deviceFrames_of_ge (hsr31 : sr < 2^31) (h : 2^31 ≤ frames*sr') (hquotient : 1 ≤ frames*sr'/sr) :
    deviceFrames frames sr sr' < frames*sr'/sr := by
  have hwrap := wrap32_of_ge h
  unfold deviceFrames
  by_cases hneg : wrap32 (frames*sr') < 0
  · have htdiv := Int.tdiv_nonneg (neg_nonneg.mpr hneg.le) hsr.le
    rw [Int.neg_tdiv] at htdiv
    omega
  · rw [Int.tdiv_eq_ediv_of_nonneg (by omega)]
    calc wrap32 (frames*sr')/sr ≤ (frames*sr'-sr)/sr := Int.ediv_le_ediv hsr (by omega)
      _ = frames*sr'/sr-1 := by rw [Int.sub_ediv_of_dvd _ (dvd_refl sr),Int.ediv_self hsr.ne']
      _ < frames*sr'/sr := by omega

theorem workerFrames_eq (hframes31 : frames < 2^31) (hsr31 : sr' < 2^31) (hfits : frames*sr'/sr < 2^31) :
    workerFrames frames sr sr' = frames*sr'/sr := by
  have hpos : 0 ≤ frames*sr' := by positivity
  have hlt : frames*sr' < 2^63 := by nlinarith
  rw [workerFrames,wrap64_of_lt hpos hlt,Int.tdiv_eq_ediv_of_nonneg hpos,
    wrap32_of_lt (Int.ediv_nonneg hpos hsr.le) hfits]

omit hsr in
/-- The worker's length is zero not only for a quotient of zero. -/
theorem workerFrames_eq_zero_iff (hframes31 : frames < 2^31) (hsr31 : sr' < 2^31) :
    workerFrames frames sr sr' = 0 ↔ 2^32 ∣ frames*sr'/sr := by
  have hpos : 0 ≤ frames*sr' := by positivity
  have hlt : frames*sr' < 2^63 := by nlinarith
  rw [workerFrames,wrap64_of_lt hpos hlt,Int.tdiv_eq_ediv_of_nonneg hpos,wrap32]
  exact Int.dvd_iff_bmod_eq_zero.symm

theorem converterFrames_of_lt (h : frames*sr' < 2^31) (hquotient : 1 ≤ frames*sr'/sr) :
    converterFrames frames sr sr' = frames*sr'/sr := by
  unfold converterFrames
  by_cases hsame : sr = sr'
  · subst hsame
    rw [if_neg (by simp),Int.mul_ediv_cancel _ hsr.ne']
  · have hdevice : deviceFrames frames sr sr' = frames*sr'/sr := deviceFrames_of_lt hframes hsr' h
    unfold deviceFrames at hdevice
    rw [if_pos hsame,hdevice]
    exact if_neg (by omega)

theorem converterFrames_pos (h : sr ≠ sr' → frames*sr' < 2^31) : 1 ≤ converterFrames frames sr sr' := by
  unfold converterFrames
  by_cases hsame : sr = sr'
  · rw [if_neg (not_not.mpr hsame)]
    exact hframes
  · have hpos : 0 ≤ frames*sr' := by positivity
    have hquotient := Int.ediv_nonneg hpos hsr.le
    rw [if_pos hsame,wrap32_of_lt hpos (h hsame),Int.tdiv_eq_ediv_of_nonneg hpos]
    dsimp only
    split <;> omega

/-- The three lengths are the exact quotient as long as the product fits in an int. -/
theorem lengths_exact_iff (hframes31 : frames < 2^31) (hsr31 : sr < 2^31) (hsr31' : sr' < 2^31)
    (hquotient : 1 ≤ frames*sr'/sr) (hfits : frames*sr'/sr < 2^31) :
    (converterFrames frames sr sr' = frames*sr'/sr ∧ workerFrames frames sr sr' = frames*sr'/sr ∧
      deviceFrames frames sr sr' = frames*sr'/sr) ↔ frames*sr' < 2^31 := by
  constructor
  · rintro ⟨_,_,hdevice⟩
    by_contra hge
    exact (deviceFrames_of_ge hsr hsr31 (not_lt.mp hge) hquotient).ne hdevice
  · intro h
    exact ⟨converterFrames_of_lt hframes hsr hsr' h hquotient,
      workerFrames_eq hframes hsr hsr' hframes31 hsr31' hfits,deviceFrames_of_lt hframes hsr' h⟩

end Quotient

end BlockLength
end AudioOutput
