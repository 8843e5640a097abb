import AudioOutput.Lanes
import AudioOutput.SpeexResampler
import Mathlib.Algebra.BigOperators.Group.Finset.Basic
import Mathlib.Algebra.Field.Rat

/-!
# The inner loops of speex

How `resampler_basic_direct_*` and `resampler_basic_interpolate_*` compute one output
sample from the table of the filter and the memory of one channel.
-/

namespace AudioOutput
namespace SpeexResampler

open Program Buffer

/-- `resampler_ptr`. -/
inductive Kernel
  | directSingle | directDouble
  | interpolateSingle | interpolateDouble
  | zero
  deriving DecidableEq

/-- `min_sinc_table_length`; no table is read to make zeros. -/
def Kernel.tableLength (filtLen denRate oversample : ℕ) : Kernel → ℕ
  | .directSingle | .directDouble => filtLen*denRate
  | .interpolateSingle | .interpolateDouble => filtLen*oversample+8
  | .zero => 0

structure Tables (K : Type) where
  nbChannels : ℕ
  numRate : ℕ
  denRate : ℕ
  filtLen : ℕ
  oversample : ℕ
  resamplerPtr : Kernel
  sincTable : List K

structure Setup (K : Type) extends Tables K where
  numRate_pos : 0 < numRate
  denRate_pos : 0 < denRate
  filtLen_pos : 0 < filtLen
  filtLen_dvd : 8 ∣ filtLen
  oversample_pos : 0 < oversample
  table : resamplerPtr.tableLength filtLen denRate oversample ≤ sincTable.length

/-- `accum[4]` and `interp[4]`. -/
structure Four (K : Type) where
  c0 : K
  c1 : K
  c2 : K
  c3 : K

variable {K : Type} [Field K]

def Four.sum (accum : Four K) : K := accum.c0+accum.c1+accum.c2+accum.c3

def cubicCoef (frac : K) : Four K :=
  let c0 := -0.16667*frac+0.16667*frac*frac*frac
  let c1 := frac+0.5*frac*frac-0.5*frac*frac*frac
  let c3 := -0.33333*frac+0.5*frac*frac-0.16667*frac*frac*frac
  ⟨c0,c1,1-c0-c1-c3,c3⟩

namespace Setup

variable (u : Setup K) (mem : List K) (iptr sampFracNum : ℕ)

def directSingle : Program Empty K :=
  forLoop u.filtLen (fun j sum => do
    return sum+(← load u.sincTable (sampFracNum*u.filtLen+j))*(← load mem (iptr+j))) 0

/-- A round of `directDouble`, with an accumulator for each of four steps. -/
def fourSteps (j : ℕ) (accum : Four K) : Program Empty (Four K) := do
  let c0 := accum.c0+(← load u.sincTable (sampFracNum*u.filtLen+j))*(← load mem (iptr+j))
  let c1 := accum.c1+(← load u.sincTable (sampFracNum*u.filtLen+(j+1)))*(← load mem (iptr+(j+1)))
  let c2 := accum.c2+(← load u.sincTable (sampFracNum*u.filtLen+(j+2)))*(← load mem (iptr+(j+2)))
  let c3 := accum.c3+(← load u.sincTable (sampFracNum*u.filtLen+(j+3)))*(← load mem (iptr+(j+3)))
  return ⟨c0,c1,c2,c3⟩

def directDouble : Program Empty K := do
  let accum ← stridedLoop u.filtLen 4 4 (fun j _ accum => u.fourSteps mem iptr sampFracNum j accum) ⟨0,0,0,0⟩
  return accum.sum

def offset : ℕ := sampFracNum*u.oversample/u.denRate

def frac : K := ((sampFracNum*u.oversample%u.denRate : ℕ) : K)/u.denRate

/-- A round of `interpolate`, with an accumulator for each of four rows of a coarser table. -/
def fourRows (j : ℕ) (accum : Four K) : Program Empty (Four K) := do
  let currIn ← load mem (iptr+j)
  let c0 := accum.c0+currIn*(← load u.sincTable (4+(j+1)*u.oversample-u.offset sampFracNum-2))
  let c1 := accum.c1+currIn*(← load u.sincTable (4+(j+1)*u.oversample-u.offset sampFracNum-1))
  let c2 := accum.c2+currIn*(← load u.sincTable (4+(j+1)*u.oversample-u.offset sampFracNum))
  let c3 := accum.c3+currIn*(← load u.sincTable (4+(j+1)*u.oversample-u.offset sampFracNum+1))
  return ⟨c0,c1,c2,c3⟩

/-- Single and double precision alike. -/
def interpolate : Program Empty K := do
  let accum ← forLoop u.filtLen (fun j accum => u.fourRows mem iptr sampFracNum j accum) ⟨0,0,0,0⟩
  let interp := cubicCoef (u.frac sampFracNum)
  return interp.c0*accum.c0+interp.c1*accum.c1+interp.c2*accum.c2+interp.c3*accum.c3

def output : Program Empty K :=
  match u.resamplerPtr with
  | .directSingle => u.directSingle mem iptr sampFracNum
  | .directDouble => u.directDouble mem iptr sampFracNum
  | .interpolateSingle | .interpolateDouble => u.interpolate mem iptr sampFracNum
  | .zero => pure 0

end Setup

def Setup.partSum (u : Setup K) (cell : ℕ → ℕ) (window : List K) (n : ℕ) : K :=
  ∑ j ∈ Finset.range n, u.sincTable.getD (cell j) 0*window.getD j 0

def Setup.convolution (u : Setup K) (cell : ℕ → ℕ) (window : List K) : K := u.partSum cell window u.filtLen

def Setup.rowCell (u : Setup K) (sampFracNum k j : ℕ) : ℕ := 4+(j+1)*u.oversample-u.offset sampFracNum+k-2

def Setup.value (u : Setup K) (sampFracNum : ℕ) (window : List K) : K :=
  match u.resamplerPtr with
  | .directSingle | .directDouble => u.convolution (fun j => sampFracNum*u.filtLen+j) window
  | .interpolateSingle | .interpolateDouble =>
    let interp := cubicCoef (u.frac sampFracNum)
    let row (k : ℕ) := u.convolution (u.rowCell sampFracNum k) window
    interp.c0*row 0+interp.c1*row 1+interp.c2*row 2+interp.c3*row 3
  | .zero => 0

theorem load_getD {xs : List K} {i : ℕ} (h : i < xs.length) : (load xs i : Program Empty K).Returns (xs.getD i 0) :=
  load_returns (by simp [h])

omit [Field K] in
theorem getD_slice (xs : List K) (x : K) {pos len j : ℕ} (h : j < len) :
    (slice xs pos len).getD j x = xs.getD (pos+j) x := by
  simp [slice,List.getD_eq_getElem?_getD,h]

variable {u : Setup K} {mem : List K} {iptr sampFracNum : ℕ}

theorem Setup.partSum_succ (cell : ℕ → ℕ) {n : ℕ} (hn : n < u.filtLen) :
    u.partSum cell (slice mem iptr u.filtLen) (n+1) =
      u.partSum cell (slice mem iptr u.filtLen) n+u.sincTable.getD (cell n) 0*mem.getD (iptr+n) 0 := by
  rw [partSum,Finset.sum_range_succ,getD_slice mem 0 hn]
  rfl

omit [Field K] in
theorem Setup.cell_lt (hfrac : sampFracNum < u.denRate) {j : ℕ} (hj : j < u.filtLen) :
    sampFracNum*u.filtLen+j < u.filtLen*u.denRate := by
  rw [Nat.mul_comm u.filtLen]
  calc sampFracNum*u.filtLen+j < (sampFracNum+1)*u.filtLen := by rw [Nat.succ_mul]; omega
    _ ≤ u.denRate*u.filtLen := Nat.mul_le_mul_right _ hfrac

section Direct

variable (hfrac : sampFracNum < u.denRate) (htable : u.filtLen*u.denRate ≤ u.sincTable.length)
  (hmem : iptr+u.filtLen ≤ mem.length)

include hfrac htable hmem

theorem Setup.directSingle_returns : (u.directSingle mem iptr sampFracNum).Returns
    (u.convolution (fun j => sampFracNum*u.filtLen+j) (slice mem iptr u.filtLen)) := by
  refine (Ends.forLoop (fun n sum => sum = u.partSum (fun j => sampFracNum*u.filtLen+j) (slice mem iptr u.filtLen) n)
    (by simp [Setup.partSum]) ?_).returns
  rintro j sum hj rfl
  have hcell := Setup.cell_lt hfrac hj
  exact (load_getD (by omega)).then ((load_getD (by omega)).then (.pure (Setup.partSum_succ _ hj).symm))

theorem Setup.fourSteps_ends {j : ℕ} (hj : j+4 ≤ u.filtLen) {accum : Four K}
    (h : accum.sum = u.partSum (fun j => sampFracNum*u.filtLen+j) (slice mem iptr u.filtLen) j) :
    (u.fourSteps mem iptr sampFracNum j accum).Ends fun t =>
      t.sum = u.partSum (fun j => sampFracNum*u.filtLen+j) (slice mem iptr u.filtLen) (j+4) := by
  have hlast := Setup.cell_lt hfrac (show j+3 < u.filtLen by omega)
  have htap (k : ℕ) (hk : k < 4) : (load u.sincTable (sampFracNum*u.filtLen+(j+k)) : Program Empty K).Returns
      (u.sincTable.getD (sampFracNum*u.filtLen+(j+k)) 0) := load_getD (by omega)
  have hsample (k : ℕ) (hk : k < 4) : (load mem (iptr+(j+k)) : Program Empty K).Returns (mem.getD (iptr+(j+k)) 0) :=
    load_getD (by omega)
  refine (htap 0 (by decide)).then ((hsample 0 (by decide)).then ((htap 1 (by decide)).then
    ((hsample 1 (by decide)).then ((htap 2 (by decide)).then ((hsample 2 (by decide)).then
    ((htap 3 (by decide)).then ((hsample 3 (by decide)).then (.pure ?_))))))))
  rw [Setup.partSum_succ _ (show j+3 < u.filtLen by omega),Setup.partSum_succ _ (show j+2 < u.filtLen by omega),
    Setup.partSum_succ _ (show j+1 < u.filtLen by omega),Setup.partSum_succ _ (show j < u.filtLen by omega),← h]
  simp only [Four.sum,Nat.add_zero]
  ring

/-- The four accumulators share the work. -/
theorem Setup.directDouble_returns : (u.directDouble mem iptr sampFracNum).Returns
    (u.convolution (fun j => sampFracNum*u.filtLen+j) (slice mem iptr u.filtLen)) := by
  obtain ⟨n,hn⟩ : 4 ∣ u.filtLen := Nat.dvd_trans (by decide) u.filtLen_dvd
  have hlen : u.filtLen = n*4 := by omega
  have hloop : (stridedLoop (n*4) 4 4 (fun j _ accum => u.fourSteps mem iptr sampFracNum j accum) ⟨0,0,0,0⟩).Ends
      fun accum => accum.sum =
        u.partSum (fun j => sampFracNum*u.filtLen+j) (slice mem iptr u.filtLen) (n*4) := by
    refine Ends.stridedLoop (fun k (accum : Four K) => accum.sum =
      u.partSum (fun j => sampFracNum*u.filtLen+j) (slice mem iptr u.filtLen) (k*4)) (show 1 ≤ 4 by decide)
      (by simp [Four.sum,Setup.partSum]) fun k accum hk h => ?_
    rw [Nat.succ_mul]
    exact Setup.fourSteps_ends hfrac htable hmem (by omega) h
  rw [← hlen] at hloop
  exact (hloop.bind fun accum h => .pure h).returns

end Direct

section Interpolate

omit [Field K] in
theorem Setup.offset_lt (hfrac : sampFracNum < u.denRate) : u.offset sampFracNum < u.oversample := by
  rw [Setup.offset,Nat.div_lt_iff_lt_mul u.denRate_pos,Nat.mul_comm]
  exact Nat.mul_lt_mul_of_pos_left hfrac u.oversample_pos

omit [Field K] in
theorem Setup.rowCell_lt {j k : ℕ} (hj : j < u.filtLen) (hk : k < 4) :
    u.rowCell sampFracNum k j < u.filtLen*u.oversample+8 := by
  have hle : (j+1)*u.oversample ≤ u.filtLen*u.oversample := Nat.mul_le_mul_right _ hj
  unfold Setup.rowCell
  omega

variable (hfrac : sampFracNum < u.denRate) (htable : u.filtLen*u.oversample+8 ≤ u.sincTable.length)
  (hmem : iptr+u.filtLen ≤ mem.length)

include hfrac htable hmem

theorem Setup.fourRows_returns {j : ℕ} (hj : j < u.filtLen) (accum : Four K) :
    (u.fourRows mem iptr sampFracNum j accum).Returns
      ⟨accum.c0+mem.getD (iptr+j) 0*u.sincTable.getD (u.rowCell sampFracNum 0 j) 0,
        accum.c1+mem.getD (iptr+j) 0*u.sincTable.getD (u.rowCell sampFracNum 1 j) 0,
        accum.c2+mem.getD (iptr+j) 0*u.sincTable.getD (u.rowCell sampFracNum 2 j) 0,
        accum.c3+mem.getD (iptr+j) 0*u.sincTable.getD (u.rowCell sampFracNum 3 j) 0⟩ := by
  have hoffset := Setup.offset_lt hfrac
  have hfirst : u.oversample ≤ (j+1)*u.oversample := Nat.le_mul_of_pos_left _ (by omega)
  have hrow (k : ℕ) (hk : k < 4) {i : ℕ} (hi : i = u.rowCell sampFracNum k j) :
      (load u.sincTable i : Program Empty K).Returns (u.sincTable.getD (u.rowCell sampFracNum k j) 0) := by
    rw [hi]
    exact load_getD ((Setup.rowCell_lt hj hk).trans_le htable)
  refine (load_getD (by omega)).bind ((hrow 0 (by decide) rfl).bind ((hrow 1 (by decide) ?_).bind
    ((hrow 2 (by decide) ?_).bind ((hrow 3 (by decide) ?_).bind (.pure _)))))
  all_goals
    unfold Setup.rowCell
    omega

theorem Setup.interpolate_returns : (u.interpolate mem iptr sampFracNum).Returns
    (let interp := cubicCoef (u.frac sampFracNum)
    let row (k : ℕ) := u.convolution (u.rowCell sampFracNum k) (slice mem iptr u.filtLen)
    interp.c0*row 0+interp.c1*row 1+interp.c2*row 2+interp.c3*row 3) := by
  let part (k n : ℕ) : K := u.partSum (u.rowCell sampFracNum k) (slice mem iptr u.filtLen) n
  have hloop : (forLoop u.filtLen (fun j accum => u.fourRows mem iptr sampFracNum j accum) ⟨0,0,0,0⟩).Ends fun accum =>
      accum = ⟨part 0 u.filtLen,part 1 u.filtLen,part 2 u.filtLen,part 3 u.filtLen⟩ := by
    refine .forLoop (fun n (accum : Four K) => accum = ⟨part 0 n,part 1 n,part 2 n,part 3 n⟩) (by simp [part,Setup.partSum]) ?_
    rintro j accum hj rfl
    refine (Setup.fourRows_returns hfrac htable hmem hj _).ends ?_
    simp only [part,Setup.partSum_succ _ hj,mul_comm (mem.getD (iptr+j) 0)]
  exact hloop.returns.bind (.pure _)

end Interpolate

/-- Every loop computes its sum without leaving the table or the memory. -/
theorem Setup.output_returns (hfrac : sampFracNum < u.denRate) (hmem : iptr+u.filtLen ≤ mem.length) :
    (u.output mem iptr sampFracNum).Returns (u.value sampFracNum (slice mem iptr u.filtLen)) := by
  have htable := u.table
  unfold Setup.output Setup.value
  cases hkernel : u.resamplerPtr <;> rw [hkernel] at htable
  · exact Setup.directSingle_returns hfrac htable hmem
  · exact Setup.directDouble_returns hfrac htable hmem
  · exact Setup.interpolate_returns hfrac htable hmem
  · exact Setup.interpolate_returns hfrac htable hmem
  · exact .pure 0

def Setup.filter (u : Setup K) : Filter K 1 where
  numRate := u.numRate
  denRate := u.denRate
  filtLen := u.filtLen
  convolve sampFracNum window := [u.value sampFracNum window]
  numRate_pos := u.numRate_pos
  denRate_pos := u.denRate_pos
  length_convolve _ _ := rfl

end SpeexResampler
end AudioOutput
