import AudioOutput.SpeexMemory
import AudioOutput.StaticResampler

/-!
# Initialising speex

`speex_resampler_init` with the filter it sets up: the lengths for a quality and a ratio,
in 32 bits, and the table of the filter. What it leaves behind is what processing
relies on.
-/

namespace AudioOutput
namespace SpeexInit

open Program Buffer SpeexResampler StaticResampler

def kaiser12Table : List ℚ :=
  [0.99859849,1.00000000,0.99859849,0.99440475,0.98745105,0.97779076,0.96549770,0.95066529,0.93340547,0.91384741,
   0.89213598,0.86843014,0.84290116,0.81573067,0.78710866,0.75723148,0.72629970,0.69451601,0.66208321,0.62920216,
   0.59606986,0.56287762,0.52980938,0.49704014,0.46473455,0.43304576,0.40211431,0.37206735,0.34301800,0.31506490,
   0.28829195,0.26276832,0.23854851,0.21567274,0.19416736,0.17404546,0.15530766,0.13794294,0.12192957,0.10723616,
   0.09382272,0.08164178,0.07063950,0.06075685,0.05193064,0.04409466,0.03718069,0.03111947,0.02584161,0.02127838,
   0.01736250,0.01402878,0.01121463,0.00886058,0.00691064,0.00531256,0.00401805,0.00298291,0.00216702,0.00153438,
   0.00105297,0.00069463,0.00043489,0.00025272,0.00013031,0.0000527734,0.00001000,0.00000000]

def kaiser10Table : List ℚ :=
  [0.99537781,1.00000000,0.99537781,0.98162644,0.95908712,0.92831446,0.89005583,0.84522401,0.79486424,0.74011713,
   0.68217934,0.62226347,0.56155915,0.50119680,0.44221549,0.38553619,0.33194107,0.28205962,0.23636152,0.19515633,
   0.15859932,0.12670280,0.09935205,0.07632451,0.05731132,0.04193980,0.02979584,0.02044510,0.01345224,0.00839739,
   0.00488951,0.00257636,0.00115101,0.00035515,0.00000000,0.00000000]

def kaiser8Table : List ℚ :=
  [0.99635258,1.00000000,0.99635258,0.98548012,0.96759014,0.94302200,0.91223751,0.87580811,0.83439927,0.78875245,
   0.73966538,0.68797126,0.63451750,0.58014482,0.52566725,0.47185369,0.41941150,0.36897272,0.32108304,0.27619388,
   0.23465776,0.19672670,0.16255380,0.13219758,0.10562887,0.08273982,0.06335451,0.04724088,0.03412321,0.02369490,
   0.01563093,0.00959968,0.00527363,0.00233883,0.00050000,0.00000000]

def kaiser6Table : List ℚ :=
  [0.99733006,1.00000000,0.99733006,0.98935595,0.97618418,0.95799003,0.93501423,0.90755855,0.87598009,0.84068475,
   0.80211977,0.76076565,0.71712752,0.67172623,0.62508937,0.57774224,0.53019925,0.48295561,0.43647969,0.39120616,
   0.34752997,0.30580127,0.26632152,0.22934058,0.19505503,0.16360756,0.13508755,0.10953262,0.08693120,0.06722600,
   0.05031820,0.03607231,0.02432151,0.01487334,0.00752000,0.00000000]

/-- `KAISER12` and the like. -/
inductive FuncDef
  | kaiser12 | kaiser10 | kaiser8 | kaiser6
  deriving DecidableEq

def FuncDef.table : FuncDef → List ℚ
  | .kaiser12 => kaiser12Table
  | .kaiser10 => kaiser10Table
  | .kaiser8 => kaiser8Table
  | .kaiser6 => kaiser6Table

def FuncDef.oversample : FuncDef → ℕ
  | .kaiser12 => 64
  | .kaiser10 | .kaiser8 | .kaiser6 => 32

structure QualityMapping where
  baseLength : ℕ
  oversample : ℕ
  downsampleBandwidth : ℚ
  upsampleBandwidth : ℚ
  windowFunc : FuncDef

def qualityMap : List QualityMapping :=
  [⟨8,4,0.830,0.860,.kaiser6⟩,
   ⟨16,4,0.850,0.880,.kaiser6⟩,
   ⟨32,4,0.882,0.910,.kaiser6⟩,
   ⟨48,8,0.895,0.917,.kaiser8⟩,
   ⟨64,8,0.921,0.940,.kaiser8⟩,
   ⟨80,16,0.922,0.940,.kaiser10⟩,
   ⟨96,16,0.940,0.945,.kaiser10⟩,
   ⟨128,16,0.950,0.950,.kaiser10⟩,
   ⟨160,16,0.960,0.960,.kaiser10⟩,
   ⟨192,32,0.968,0.968,.kaiser12⟩,
   ⟨256,32,0.975,0.975,.kaiser12⟩]

/-- Down-sampling takes a longer filter, rounded up to a multiple of eight. -/
def filterLength (q : QualityMapping) (r : Ratio) : ℕ :=
  if r.denRate < r.numRate then
    let filtLen := wrapUnsigned (q.baseLength*r.numRate)/r.denRate
    wrapUnsigned (wrapUnsigned (filtLen+(2^32-1))/8*8+8)
  else q.baseLength

def halve (r : Ratio) (k oversample : ℕ) : ℕ := if wrapUnsigned (k*r.denRate) < r.numRate then oversample/2 else oversample

def oversampling (q : QualityMapping) (r : Ratio) : ℕ :=
  if r.denRate < r.numRate then
    let oversample := halve r 16 (halve r 8 (halve r 4 (halve r 2 q.oversample)))
    if oversample < 1 then 1 else oversample
  else q.oversample

/-- `INT_MAX/sizeof(spx_word16_t)`. -/
def maxCells : ℕ := (2^31-1)/4

/-- `use_direct`: the type of table that takes the least memory. -/
def UseDirect (filtLen oversample denRate : ℕ) : Prop :=
  wrapUnsigned (filtLen*denRate) ≤ wrapUnsigned (filtLen*oversample+8) ∧ filtLen ≤ maxCells/denRate

instance (filtLen oversample denRate : ℕ) : Decidable (UseDirect filtLen oversample denRate) :=
  inferInstanceAs (Decidable (_ ∧ _))

def resamplerFor (quality : ℕ) (direct : Prop) [Decidable direct] : Kernel :=
  if direct then if 8 < quality then .directDouble else .directSingle
  else if 8 < quality then .interpolateDouble else .interpolateSingle

variable {K : Type} [Field K] [LinearOrder K] [IsStrictOrderedRing K] [FloorRing K]

def cutoff (q : QualityMapping) (r : Ratio) : K :=
  if r.denRate < r.numRate then (q.downsampleBandwidth : K)*r.denRate/r.numRate else (q.upsampleBandwidth : K)

def interp (frac : K) : Four K :=
  let c3 := -0.1666666667*frac+0.1666666667*(frac*frac*frac)
  let c2 := frac+0.5*(frac*frac)-0.5*(frac*frac*frac)
  let c0 := -0.3333333333*frac+0.5*(frac*frac)-0.1666666667*(frac*frac*frac)
  ⟨c0,1-c3-c2-c0,c2,c3⟩

/-- `x` is not negative. -/
def computeFunc (x : K) (func : FuncDef) : Program Empty K := do
  let y := x*func.oversample
  let ind := ⌊y⌋
  let i := interp (y-ind)
  let t0 ← load func.table ind.toNat
  let t1 ← load func.table (ind+1).toNat
  let t2 ← load func.table (ind+2).toNat
  let t3 ← load func.table (ind+3).toNat
  return i.c0*t0+i.c1*t1+i.c2*t2+i.c3*t3

/-- `sin` and `M_PI`, and the outcome of the two allocations with what the memory happens
to hold. -/
structure Env (K : Type) where
  sin : K → K
  mPi : K
  allocatesTable : Bool
  allocatesMem : Bool
  unspecified : K

variable (env : Env K)

def sinc (cut x : K) (n : ℕ) (windowFunc : FuncDef) : Program Empty K :=
  let xx := x*cut
  if |x| < 0.000001 then return cut
  else if 0.5*(n : K) < |x| then return 0
  else do return cut*env.sin (env.mPi*xx)/(env.mPi*xx)*(← computeFunc |2.0*x/n| windowFunc)

def fillDirect (cut : K) (filtLen denRate : ℕ) (windowFunc : FuncDef) (sincTable : List K) : Program Empty (List K) :=
  forLoop denRate (fun i sincTable => forLoop filtLen (fun j sincTable => do
    let x := (((j : ℤ)-(filtLen/2 : ℕ)+1 : ℤ) : K)-(i : K)/denRate
    put sincTable (i*filtLen+j) (← sinc env cut x filtLen windowFunc)) sincTable) sincTable

/-- The loop starts at -4. -/
def fillInterpolate (cut : K) (filtLen oversample : ℕ) (windowFunc : FuncDef) (sincTable : List K) : Program Empty (List K) :=
  forLoop (oversample*filtLen+8) (fun i sincTable => do
    let x := (((i : ℤ)-4 : ℤ) : K)/oversample-(filtLen/2 : ℕ)
    put sincTable i (← sinc env cut x filtLen windowFunc)) sincTable

/-- The table as `speex_realloc` returns it, with room for `n` cells. Nothing is asked for
where no cell is missing. -/
def newTable (n : ℕ) : Option (List K) :=
  if n = 0 then some [] else if env.allocatesTable then some (List.replicate n env.unspecified) else none

/-- `filt_len - 1 + buffer_size`. -/
def minAllocSize (filtLen : ℕ) : ℕ := wrapUnsigned (filtLen+(2^32-1)+160)

def TooLong (nbChannels filtLen : ℕ) : Prop := maxCells/nbChannels < minAllocSize filtLen

instance (nbChannels filtLen : ℕ) : Decidable (TooLong nbChannels filtLen) := inferInstanceAs (Decidable (_ < _))

def makeTable (q : QualityMapping) (r : Ratio) : Program Empty (Option (List K)) :=
  let filtLen := filterLength q r
  let oversample := oversampling q r
  if UseDirect filtLen oversample r.denRate then
    match newTable env (wrapUnsigned (filtLen*r.denRate)) with
    | none => return none
    | some t => do return some (← fillDirect env (cutoff q r) filtLen r.denRate q.windowFunc t)
  else if (maxCells-8)/oversample < filtLen then return none
  else
    match newTable env (wrapUnsigned (filtLen*oversample+8)) with
    | none => return none
    | some t => do return some (← fillInterpolate env (cutoff q r) filtLen oversample q.windowFunc t)

/-- `update_filter` for a resampler that has neither table nor memory yet. -/
def updateFilter (nbChannels quality : ℕ) (q : QualityMapping) (r : Ratio) : Program Empty (Option (Tables K × List K)) := do
  let filtLen := filterLength q r
  let oversample := oversampling q r
  match ← makeTable env q r with
  | none => return none
  | some sincTable =>
    if TooLong nbChannels filtLen then return none
    else if env.allocatesMem then do
      let size := nbChannels*minAllocSize filtLen
      let mem ← forLoop size (fun i mem => put mem i 0) (List.replicate size env.unspecified)
      let resamplerPtr := resamplerFor quality (UseDirect filtLen oversample r.denRate)
      return some (⟨nbChannels,r.numRate,r.denRate,filtLen,oversample,resamplerPtr,sincTable⟩,mem)
    else return none

/-- `speex_resampler_init`; there is no resampler where the quality is out of range or
memory is short. -/
def init (nbChannels inRate outRate quality : ℕ) : Program Empty (Option (Tables K × SpeexMemory.State K)) :=
  match qualityMap[quality]? with
  | none => return none
  | some q => do
    let r ← setRateFrac inRate outRate
    match ← updateFilter env nbChannels quality q r with
    | none => return none
    | some (t,mem) => return some (t,⟨List.replicate nbChannels ⟨⟨0,0⟩,0⟩,mem,1,1⟩)

theorem quality_bounds : ∀ q ∈ qualityMap, 8 ∣ q.baseLength ∧ 0 < q.baseLength ∧ q.baseLength ≤ 256 ∧ 0 < q.oversample ∧
    q.oversample ≤ 32 := by
  simp [qualityMap]

variable {q : QualityMapping} {r : Ratio}

/-- The filter has a multiple of eight taps as long as the product does not wrap around. -/
theorem filterLength_dvd (hq : q ∈ qualityMap) (hden : 0 < r.denRate) (hnum : 256*r.numRate < 2^32) :
    8 ∣ filterLength q r ∧ 0 < filterLength q r := by
  obtain ⟨⟨m,hm⟩,hpos,hle,-,-⟩ := quality_bounds q hq
  unfold filterLength
  split
  case isTrue hdown =>
    have hproduct : q.baseLength*r.numRate ≤ 256*r.numRate := Nat.mul_le_mul_right _ hle
    have height : q.baseLength*r.numRate = 8*(m*r.numRate) := by rw [hm]; ring
    have hquotient : q.baseLength*r.numRate/r.denRate ≤ q.baseLength*r.numRate := Nat.div_le_self _ _
    have hone : q.baseLength ≤ q.baseLength*r.numRate/r.denRate := by
      rw [Nat.le_div_iff_mul_le hden]
      exact Nat.mul_le_mul_left _ hdown.le
    have hwrap : wrapUnsigned (q.baseLength*r.numRate) = q.baseLength*r.numRate := Nat.mod_eq_of_lt (by omega)
    dsimp only
    rw [hwrap]
    unfold wrapUnsigned
    omega
  case isFalse => exact ⟨⟨m,hm⟩,hpos⟩

theorem oversampling_pos (hq : q ∈ qualityMap) : 0 < oversampling q r := by
  obtain ⟨-,-,-,hpos,-⟩ := quality_bounds q hq
  unfold oversampling
  split
  · dsimp only
    split <;> omega
  · exact hpos

variable (r) in
theorem halve_le (k oversample : ℕ) : halve r k oversample ≤ oversample := by
  unfold halve
  split <;> omega

theorem oversampling_le (hq : q ∈ qualityMap) : oversampling q r ≤ 32 := by
  obtain ⟨-,-,-,-,hle⟩ := quality_bounds q hq
  unfold oversampling
  split
  · have hhalved := (halve_le r 16 _).trans ((halve_le r 8 _).trans ((halve_le r 4 _).trans (halve_le r 2 q.oversample)))
    dsimp only
    split <;> omega
  · exact hle

/-- The length of the filter grows with the ratio. -/
theorem filterLength_le (hq : q ∈ qualityMap) (hden : 0 < r.denRate) (hnum : 256*r.numRate < 2^32) {k : ℕ}
    (hk : r.numRate ≤ k*r.denRate) (hpos : 0 < k) : filterLength q r ≤ 256*k+8 := by
  obtain ⟨-,-,hle,-,-⟩ := quality_bounds q hq
  unfold filterLength
  split
  case isTrue hdown =>
    have hproduct : q.baseLength*r.numRate ≤ 256*r.numRate := Nat.mul_le_mul_right _ hle
    have hquotient : q.baseLength*r.numRate/r.denRate ≤ 256*k := by
      refine Nat.div_le_of_le_mul ?_
      calc q.baseLength*r.numRate ≤ 256*(k*r.denRate) := Nat.mul_le_mul hle hk
        _ = r.denRate*(256*k) := by ring
    have hwrap : wrapUnsigned (q.baseLength*r.numRate) = q.baseLength*r.numRate := Nat.mod_eq_of_lt (by omega)
    have hone : q.baseLength ≤ q.baseLength*r.numRate/r.denRate := by
      rw [Nat.le_div_iff_mul_le hden]
      exact Nat.mul_le_mul_left _ hdown.le
    have hsmall : q.baseLength*r.numRate/r.denRate ≤ q.baseLength*r.numRate := Nat.div_le_self _ _
    dsimp only
    rw [hwrap]
    unfold wrapUnsigned
    omega
  case isFalse => omega

variable {env : Env K} {filtLen denRate oversample : ℕ} {sincTable : List K} (cut : K) (w : FuncDef)

theorem computeFunc_ends {x : K} (hpos : 0 ≤ x) (hle : x ≤ 1) : (computeFunc x w).Ends fun _ => True := by
  have htable : w.table.length = w.oversample+4 := by cases w <;> rfl
  have hind : 0 ≤ ⌊x*w.oversample⌋ := Int.floor_nonneg.mpr (by positivity)
  have hlast : ⌊x*w.oversample⌋ ≤ w.oversample := by
    have hy : x*w.oversample ≤ ((w.oversample : ℤ) : K) := by
      push_cast
      exact mul_le_of_le_one_left (Nat.cast_nonneg _) hle
    exact (Int.floor_mono hy).trans_eq (Int.floor_intCast _)
  have hload (k : ℤ) (hk : 0 ≤ k) (hk' : k ≤ 3) :
      (load w.table (⌊x*w.oversample⌋+k).toNat : Program Empty ℚ).Ends fun _ => True := by
    have hlt : (⌊x*w.oversample⌋+k).toNat < w.table.length := by omega
    exact (load_returns (List.getElem?_eq_getElem hlt)).ends trivial
  have hfirst := hload 0 le_rfl (by omega)
  rw [add_zero] at hfirst
  refine hfirst.bind fun _ _ => (hload 1 (by omega) (by omega)).bind fun _ _ => ?_
  refine (hload 2 (by omega) (by omega)).bind fun _ _ => (hload 3 (by omega) le_rfl).bind fun _ _ => .pure trivial

theorem sinc_ends (x : K) (hlen : 0 < filtLen) : (sinc env cut x filtLen w).Ends fun _ => True := by
  have hn : (0 : K) < filtLen := Nat.cast_pos.mpr hlen
  unfold sinc
  dsimp only
  split
  · exact .pure trivial
  · split
    case isTrue => exact .pure trivial
    case isFalse hnear =>
      have hle : |2.0*x/filtLen| ≤ 1 := by
        have htwo : (2.0 : K) = 2 := by norm_num
        rw [htwo,abs_div,abs_mul,abs_of_pos hn,div_le_one hn,abs_two]
        linarith
      exact (computeFunc_ends w (abs_nonneg _) hle).bind fun _ _ => .pure trivial

theorem fillDirect_ends (hlen : 0 < filtLen) (h : filtLen*denRate ≤ sincTable.length) :
    (fillDirect env cut filtLen denRate w sincTable).Ends fun t => t.length = sincTable.length := by
  refine Ends.forLoop (fun _ (t : List K) => t.length = sincTable.length) rfl fun i t hi ht => ?_
  refine Ends.forLoop (fun _ (t : List K) => t.length = sincTable.length) ht fun j t hj ht => ?_
  have hcell : i*filtLen+j < denRate*filtLen := (lane_index_lt hj).mpr hi
  rw [Nat.mul_comm filtLen] at h
  exact (sinc_ends cut w _ hlen).bind fun x _ => (put_returns x (by omega)).ends (by rw [List.length_set,ht])

theorem fillInterpolate_ends (hlen : 0 < filtLen) (h : filtLen*oversample+8 ≤ sincTable.length) :
    (fillInterpolate env cut filtLen oversample w sincTable).Ends fun t => t.length = sincTable.length := by
  refine Ends.forLoop (fun _ (t : List K) => t.length = sincTable.length) rfl fun i t hi ht => ?_
  rw [Nat.mul_comm oversample] at hi
  exact (sinc_ends cut w _ hlen).bind fun x _ => (put_returns x (by omega)).ends (by rw [List.length_set,ht])

omit [Field K] [LinearOrder K] [IsStrictOrderedRing K] [FloorRing K] in
theorem newTable_eq {n : ℕ} (h : 0 < n) :
    newTable env n = if env.allocatesTable then some (List.replicate n env.unspecified) else none := if_neg (by omega)

def Representable (q : QualityMapping) (r : Ratio) : Prop :=
  UseDirect (filterLength q r) (oversampling q r) r.denRate ∨ filterLength q r ≤ (maxCells-8)/oversampling q r

/-- A table has room for all that the inner loops read. -/
theorem makeTable_ends (hq : q ∈ qualityMap) (hden : 0 < r.denRate) (hnum : 256*r.numRate < 2^32) (quality : ℕ) :
    (makeTable env q r).Ends fun t => (t.isSome ↔ env.allocatesTable ∧ Representable q r) ∧
      ∀ sincTable, t = some sincTable → (resamplerFor quality (UseDirect (filterLength q r) (oversampling q r) r.denRate)).tableLength
        (filterLength q r) r.denRate (oversampling q r) ≤ sincTable.length := by
  have hpos := (filterLength_dvd hq hden hnum).2
  have hover : 0 < oversampling q r := oversampling_pos hq
  have htable (n : ℕ) : (List.replicate n env.unspecified).length = n := List.length_replicate
  unfold makeTable Representable resamplerFor
  dsimp only
  split
  case isTrue hdirect =>
    have hcells : filterLength q r*r.denRate ≤ maxCells := (Nat.le_div_iff_mul_le hden).mp hdirect.2
    have hwrap : wrapUnsigned (filterLength q r*r.denRate) = filterLength q r*r.denRate := Nat.mod_eq_of_lt (by
      unfold maxCells at hcells
      omega)
    rw [newTable_eq (by rw [hwrap]; positivity),hwrap]
    cases halloc : env.allocatesTable
    · exact .pure (by simp)
    · refine (fillDirect_ends _ _ hpos (htable _).ge).bind fun t ht => .pure ⟨by simp [hdirect],?_⟩
      rintro sincTable ⟨⟩
      rw [ht,htable]
      split <;> exact le_rfl
  case isFalse hdirect =>
    split
    case isTrue hlong => exact .pure (by simp [hdirect,hlong])
    case isFalse hfits =>
      have hle : filterLength q r ≤ (maxCells-8)/oversampling q r := not_lt.mp hfits
      have hcells : filterLength q r*oversampling q r ≤ maxCells-8 := (Nat.le_div_iff_mul_le hover).mp hle
      have hwrap : wrapUnsigned (filterLength q r*oversampling q r+8) = filterLength q r*oversampling q r+8 := Nat.mod_eq_of_lt (by
        unfold maxCells at hcells
        omega)
      rw [newTable_eq (by rw [hwrap]; positivity),hwrap]
      cases halloc : env.allocatesTable
      · exact .pure (by simp)
      · refine (fillInterpolate_ends _ _ hpos (htable _).ge).bind fun t ht => .pure ⟨by simp [hle],?_⟩
        rintro sincTable ⟨⟩
        rw [ht,htable]
        split <;> exact le_rfl

theorem minAllocSize_eq (hpos : 0 < filtLen) (hlen : filtLen ≤ maxCells) : minAllocSize filtLen = filtLen-1+160 := by
  unfold minAllocSize wrapUnsigned
  unfold maxCells at hlen
  omega

theorem Representable.le (h : Representable q r) : filterLength q r ≤ maxCells := by
  rcases h with hdirect | hinterpolate
  · exact hdirect.2.trans (Nat.div_le_self _ _)
  · exact hinterpolate.trans ((Nat.div_le_self _ _).trans (Nat.sub_le _ _))

/-- A resampler that has been made has what the loops rely on, and zeroed memory. -/
theorem updateFilter_ends (hq : q ∈ qualityMap) (hnum : 0 < r.numRate) (hden : 0 < r.denRate) (hbase : 256*r.numRate < 2^32)
    (nbChannels quality : ℕ) :
    (updateFilter env nbChannels quality q r).Ends fun t => (t.isSome ↔ env.allocatesTable ∧ env.allocatesMem ∧
        Representable q r ∧ ¬ TooLong nbChannels (filterLength q r)) ∧
      ∀ p, t = some p → ∃ u : Setup K, u.toTables = p.1 ∧ u.nbChannels = nbChannels ∧ u.numRate = r.numRate ∧
        u.denRate = r.denRate ∧ p.2 = List.replicate (u.nbChannels*SpeexMemory.memAllocSize u) 0 := by
  obtain ⟨hdvd,hpos⟩ := filterLength_dvd hq hden hbase
  refine (makeTable_ends hq hden hbase quality).bind ?_
  rintro (_ | sincTable) ⟨hsome,htable⟩
  · refine .pure ⟨?_,by rintro p ⟨⟩⟩
    have hnone : ¬ (env.allocatesTable = true ∧ Representable q r) := by simpa using hsome
    simp only [Option.isSome_none,Bool.false_eq_true,false_iff]
    exact fun h => hnone ⟨h.1,h.2.2.1⟩
  · have hmade : env.allocatesTable = true ∧ Representable q r := hsome.mp rfl
    dsimp only
    split
    case isTrue hlong => exact .pure ⟨by simp [hlong],by rintro p ⟨⟩⟩
    case isFalse hfits =>
      cases hmem : env.allocatesMem
      · exact .pure ⟨by simp,by rintro p ⟨⟩⟩
      · have hzero : (forLoop _ (fun i mem => put mem i 0) (List.replicate (nbChannels*minAllocSize (filterLength q r)) env.unspecified) :
            Program Empty (List K)).Returns _ := fillLoop_returns _ 0
        rw [List.length_replicate,minAllocSize_eq hpos hmade.2.le] at hzero
        rw [minAllocSize_eq hpos hmade.2.le]
        refine Returns.then hzero (.pure ⟨by simp [hmade,hfits],?_⟩)
        rintro p ⟨⟩
        exact ⟨⟨_,hnum,hden,hpos,hdvd,oversampling_pos hq,htable sincTable rfl⟩,rfl,rfl,rfl,rfl,rfl⟩

theorem representable_of_le (hq : q ∈ qualityMap) (hlen : filterLength q r ≤ 2^20) : Representable q r := by
  refine .inr ((Nat.le_div_iff_mul_le (oversampling_pos hq)).mpr ?_)
  calc filterLength q r*oversampling q r ≤ 2^20*32 := Nat.mul_le_mul hlen (oversampling_le hq)
    _ ≤ maxCells-8 := by decide

theorem fits_of_le (hpos : 0 < filtLen) (hlen : filtLen ≤ 2^15) {nbChannels : ℕ} (hnb : 0 < nbChannels)
    (hchannels : nbChannels ≤ 2^12) : ¬ TooLong nbChannels filtLen := by
  rw [TooLong,not_lt,minAllocSize_eq hpos (hlen.trans (by decide)),Nat.le_div_iff_mul_le hnb]
  calc (filtLen-1+160)*nbChannels ≤ (2^15-1+160)*2^12 := Nat.mul_le_mul (by omega) hchannels
    _ ≤ maxCells := by decide

/-- Memory can be had, and the sine is the first terms of its series. -/
def plenty : Env ℚ where
  sin x := x-x^3/6+x^5/120
  mPi := 355/113
  allocatesTable := true
  allocatesMem := true
  unspecified := 7

end SpeexInit
end AudioOutput
