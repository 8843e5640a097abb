import AudioOutput.BlockLength
import AudioOutput.Resampler

/-!
# Resampling a whole array

`staticResampler` allocates for the output that it expects and some more, and gives
speex chunks of its input until one of its two counts is used up. The sizes are
computed in 32 bits, partly without a sign.
-/

namespace AudioOutput
namespace StaticResampler

open Program Resampler BlockLength

structure Ratio where
  numRate : ℕ
  denRate : ℕ
  deriving DecidableEq

def divideOut (fact : ℕ) (r : Ratio) : Program Empty Ratio :=
  whileLoop (fun r : Ratio => r.numRate % fact = 0 ∧ r.denRate % fact = 0)
    (fun r => return ⟨r.numRate/fact,r.denRate/fact⟩) r

/-- `for(fact = 2; fact <= IMIN(num_rate, den_rate); fact++)`, as in
`speex_resampler_set_rate_frac`. -/
def setRateFrac (ratioNum ratioDen : ℕ) : Program Empty Ratio := do
  let r ← whileLoop (fun r : ℕ × Ratio => r.1 ≤ min r.2.numRate r.2.denRate)
    (fun (fact,r) => do return (fact+1,← divideOut fact r)) (2,⟨ratioNum,ratioDen⟩)
  return r.2

def wrapUnsigned (n : ℕ) : ℕ := n % 2^32

/-- `frames*channels*denom/numer+channels*200`; without a value where a product of ints
overflows. -/
def size (channels frames : ℕ) (r : Ratio) : Option ℤ :=
  if frames*channels < 2^31 ∧ channels*200 < 2^31 then
    some (wrap32 (wrapUnsigned (frames*channels*r.denRate)/r.numRate+channels*200 : ℕ))
  else none

/-- `frames*denom/numer+200`. -/
def remainingOut (frames : ℕ) (r : Ratio) : ℤ := wrap32 (wrapUnsigned (frames*r.denRate)/r.numRate+200 : ℕ)

inductive Exception
  | memoryAllocation
  | speex (code : ℕ)
  deriving DecidableEq

/-- `RESAMPLER_ERR_SUCCESS` and `RESAMPLER_ERR_ALLOC_FAILED`. -/
def errSuccess : ℕ := 0

def errAllocFailed : ℕ := 1

section Function

variable {α : Type} {channels : ℕ}

/-- The locals of the loop; `tempData` and `tempO` are where the pointers point to. The
history is the input consumed and the output produced by the calls so far. -/
structure Locals (speex : Speex α channels) where
  resampler : speex.State
  remainingIn : ℕ
  remainingOut : ℤ
  outLength : ℕ
  tempData : ℕ
  tempO : ℕ
  o : List α
  consumed : List α
  produced : List α

variable {speex : Speex α channels}

/-- The regions handed to speex are checked. -/
def Locals.round (data : List α) (w : Locals speex) : Program Empty (Locals speex) := do
  let consumed := min 1024 w.remainingIn
  let written := (min 1024 w.remainingOut).toNat
  let input ← Buffer.region data w.tempData (consumed*channels)
  let _ ← Buffer.region w.o w.tempO (written*channels)
  let r := speex.process w.resampler input consumed written
  let o ← Buffer.store w.o w.tempO r.samples
  return {
    resampler := r.state
    remainingIn := w.remainingIn-r.consumed
    remainingOut := w.remainingOut-r.produced
    outLength := w.outLength+r.produced
    tempData := w.tempData+r.consumed*channels
    tempO := w.tempO+r.produced*channels
    o := o
    consumed := w.consumed ++ input.take (r.consumed*channels)
    produced := w.produced ++ r.samples }

variable (speex) in
def resample (frames : ℕ) (remainingOut : ℤ) (data o : List α) : Program Empty (Locals speex) :=
  whileLoop (fun w : Locals speex => 0 < w.remainingIn ∧ 0 < w.remainingOut) (Locals.round data)
    ⟨speex.initial,frames,remainingOut,0,0,0,o,[],[]⟩

variable [Zero α]

/-- `calloc(n, sizeof(float))`; a negative number of cells is more than there are. -/
def calloc (succeeds : Bool) (n : ℤ) : Option (List α) :=
  if succeeds ∧ 0 ≤ n then some (List.replicate n.toNat 0) else none

/-- `init` and `err` are what `speex_resampler_init` gives; the result is `*outLength`
and `*outData`. -/
def staticResampler (init : Option (Speex α channels)) (err : ℕ) (allocates : Bool) (inputSr outputSr frames : ℕ)
    (data : List α) : Program Empty (Except Exception (ℕ × Option (List α))) :=
  if inputSr = outputSr then
    match calloc allocates (wrap32 (channels*frames)) with
    | none => return .error .memoryAllocation
    | some o => do
      let copied ← Buffer.region data 0 (channels*frames)
      let o ← Buffer.store o 0 copied
      return .ok (frames,some o)
  else
    match init with
    | none => return .error .memoryAllocation
    | some speex =>
      if err = errAllocFailed then return .error .memoryAllocation
      else if err ≠ errSuccess then return .error (.speex err)
      else do
        let ratio ← setRateFrac inputSr outputSr
        match size channels frames ratio with
        | none => .ofExcept (.error .badLength)
        | some n =>
          match calloc allocates n with
          -- the pointer is not checked here
          | none =>
            if 0 < frames ∧ 0 < remainingOut frames ratio then .ofExcept (.error .nullPointer) else return .ok (0,none)
          | some o => do
            let w ← resample speex frames (remainingOut frames ratio) data o
            return .ok (w.outLength,some w.o)

end Function

/-- What the loops have kept of the ratio: a common factor has been divided out, and no
number below `fact` divides both rates any more. -/
structure Ratio.Of (a b fact : ℕ) (r : Ratio) : Prop where
  numRate_pos : 0 < r.numRate
  denRate_pos : 0 < r.denRate
  common : ∃ d, a = r.numRate*d ∧ b = r.denRate*d
  reduced : ∀ e, 2 ≤ e → e < fact → ¬ (e ∣ r.numRate ∧ e ∣ r.denRate)

theorem Ratio.Of.divide {a b fact : ℕ} {r : Ratio} (h : r.Of a b fact) (hfact : 2 ≤ fact)
    (hnum : fact ∣ r.numRate) (hden : fact ∣ r.denRate) : Ratio.Of a b fact ⟨r.numRate/fact,r.denRate/fact⟩ := by
  obtain ⟨d,rfl,rfl⟩ := h.common
  refine ⟨Nat.div_pos (Nat.le_of_dvd h.numRate_pos hnum) (by omega),
    Nat.div_pos (Nat.le_of_dvd h.denRate_pos hden) (by omega),⟨fact*d,?_,?_⟩,?_⟩
  · rw [← Nat.mul_assoc,Nat.div_mul_cancel hnum]
  · rw [← Nat.mul_assoc,Nat.div_mul_cancel hden]
  · rintro e he hlt ⟨he₁,he₂⟩
    exact h.reduced e he hlt ⟨he₁.trans (Nat.div_dvd_of_dvd hnum),he₂.trans (Nat.div_dvd_of_dvd hden)⟩

theorem divideOut_ends {a b fact : ℕ} {r : Ratio} (h : r.Of a b fact) (hfact : 2 ≤ fact) :
    Ends (divideOut fact r) fun t => t.Of a b (fact+1) ∧ t.numRate ≤ r.numRate ∧ t.denRate ≤ r.denRate := by
  let I : Ratio → Prop := fun t => t.Of a b fact ∧ t.numRate ≤ r.numRate ∧ t.denRate ≤ r.denRate
  refine (Ends.whileLoop I Ratio.numRate ⟨h,le_rfl,le_rfl⟩ ?_).imp ?_
  · rintro t ⟨ht,hnum,hden⟩ ⟨hdvd,hdvd'⟩
    refine .pure ⟨⟨ht.divide hfact (Nat.dvd_of_mod_eq_zero hdvd) (Nat.dvd_of_mod_eq_zero hdvd'),?_,?_⟩,?_⟩
    · exact (Nat.div_le_self _ _).trans hnum
    · exact (Nat.div_le_self _ _).trans hden
    · exact Nat.div_lt_self ht.numRate_pos hfact
  · rintro t ⟨⟨ht,hnum,hden⟩,hstop⟩
    refine ⟨⟨ht.numRate_pos,ht.denRate_pos,ht.common,?_⟩,hnum,hden⟩
    intro e he hlt
    by_cases heq : e = fact
    · subst heq
      rintro ⟨hdvd,hdvd'⟩
      exact hstop ⟨Nat.mod_eq_zero_of_dvd hdvd,Nat.mod_eq_zero_of_dvd hdvd'⟩
    · exact ht.reduced e he (by omega)

/-- At the end of the loop the ratio is in lowest terms. -/
theorem Ratio.Of.eq_div_gcd {a b fact : ℕ} {r : Ratio} (h : r.Of a b fact) (ha : 0 < a)
    (hfact : min r.numRate r.denRate < fact) : r = ⟨a/a.gcd b,b/a.gcd b⟩ := by
  obtain ⟨d,rfl,rfl⟩ := h.common
  have hd : 0 < d := Nat.pos_of_mul_pos_left ha
  have hle : r.numRate.gcd r.denRate ≤ min r.numRate r.denRate :=
    le_min (Nat.gcd_le_left _ h.numRate_pos) (Nat.gcd_le_right _ h.denRate_pos)
  have hpos : 0 < r.numRate.gcd r.denRate := Nat.gcd_pos_of_pos_left _ h.numRate_pos
  have hone : r.numRate.gcd r.denRate = 1 := by
    by_contra hne
    exact h.reduced _ (by omega) (by omega) ⟨Nat.gcd_dvd_left _ _,Nat.gcd_dvd_right _ _⟩
  rw [Nat.gcd_mul_right,hone,Nat.one_mul,Nat.mul_div_cancel _ hd,Nat.mul_div_cancel _ hd]

theorem setRateFrac_returns {a b : ℕ} (ha : 0 < a) (hb : 0 < b) :
    Returns (setRateFrac a b) ⟨a/a.gcd b,b/a.gcd b⟩ := by
  let I : ℕ × Ratio → Prop := fun t => 2 ≤ t.1 ∧ t.2.Of a b t.1
  have hinit : I (2,⟨a,b⟩) := ⟨le_rfl,ha,hb,⟨1,by simp,by simp⟩,fun e he hlt => by omega⟩
  have hloop : Ends (Program.whileLoop (fun r : ℕ × Ratio => r.1 ≤ min r.2.numRate r.2.denRate)
      (fun (fact,r) => do return (fact+1,← divideOut fact r)) (2,⟨a,b⟩)) fun t =>
      I t ∧ ¬ t.1 ≤ min t.2.numRate t.2.denRate := by
    refine .whileLoop I (fun t => min t.2.numRate t.2.denRate+1-t.1) hinit ?_
    rintro ⟨fact,r⟩ ⟨hfact,hr⟩ hcond
    refine (divideOut_ends hr hfact).bind fun t ⟨ht,hnum,hden⟩ => .pure ⟨⟨?_,ht⟩,?_⟩
    · exact hfact.trans (Nat.le_succ _)
    · dsimp only at hcond hnum hden ⊢
      omega
  refine (hloop.bind fun t ⟨⟨_,ht⟩,hstop⟩ => .pure ?_).returns
  exact ht.eq_div_gcd ha (not_le.mp hstop)

theorem wrap32_natCast_of_ge {n : ℕ} (h : 2^31 ≤ n) (h' : n < 2^31+2^32) : wrap32 n = n-2^32 := by
  unfold wrap32 Int.bmod
  dsimp only
  split <;> omega

section Room

variable {c n x : ℕ}

/-- What the product of a number of samples loses in 32 bits is lost behind the whole
quotients. -/
theorem quotient_of_lt (hn : 0 < n) (h : c*(x/n*n)+c*(x%n)%2^32 < 2^32) :
    c*x%2^32/n = c*(x/n)+c*(x%n)%2^32/n := by
  have hsplit : c*x = c*(x/n*n)+c*(x%n) := by rw [← Nat.mul_add,Nat.div_add_mod' x n]
  have hmod : c*x%2^32 = c*(x%n)%2^32+c*(x/n)*n := by
    rw [hsplit,Nat.mul_assoc]
    omega
  rw [hmod,Nat.add_mul_div_right _ _ hn,Nat.add_comm]

/-- Otherwise the quotient comes out too small. -/
theorem quotient_of_ge (h : 2^32 ≤ c*(x/n*n)+c*(x%n)%2^32) : c*x%2^32/n < c*(x/n) := by
  have hsplit : c*x = c*(x/n*n)+c*(x%n) := by rw [← Nat.mul_add,Nat.div_add_mod' x n]
  refine Nat.div_lt_of_lt_mul ?_
  have hcomm : n*(c*(x/n)) = c*(x/n*n) := by ring
  rw [hsplit,hcomm]
  omega

theorem le_add_of_wrap (hc : 0 < c) {d : ℕ} (hd : 0 < d) (h : x+d = 2^32) : 2^32 ≤ c*x%2^32+c*d := by
  have hpos : 0 < c*d := Nat.mul_pos hc hd
  have hsum : c*x+c*d = 2^32*c := by rw [← Nat.mul_add,h,Nat.mul_comm]
  omega

/-- A number of frames that does not fit in an int is negative or has wrapped around, and
then there is room for them. -/
theorem room_of_ge (hc : 0 < c) (hn : 0 < n) (hx : x < 2^32) (h200 : c*200 < 2^31) (h : 2^31 ≤ x/n+200) :
    (c : ℤ)*wrap32 (x/n+200 : ℕ) ≤ wrap32 (c*x%2^32/n+c*200 : ℕ) := by
  have hquotient : x/n ≤ x := Nat.div_le_self _ _
  have hmod : c*x%2^32 < 2^32 := Nat.mod_lt _ (by decide)
  have hsize : c*x%2^32/n ≤ c*x%2^32 := Nat.div_le_self _ _
  have hframes : wrap32 (x/n+200 : ℕ) = (x/n+200 : ℕ)-2^32 := wrap32_natCast_of_ge h (by omega)
  rw [hframes]
  obtain rfl | hn2 : n = 1 ∨ 2 ≤ n := by omega
  -- the ratio leaves the products as they are
  · obtain ⟨d,hd⟩ : ∃ d, x+d = 2^32 := ⟨2^32-x,by omega⟩
    have hshort := le_add_of_wrap hc (by omega : 0 < d) hd
    have hmul : (c : ℤ)*((x/1+200 : ℕ)-2^32) = (c*200 : ℕ)-(c*d : ℕ) := by
      have hx : ((x/1+200 : ℕ) : ℤ)-2^32 = 200-d := by omega
      rw [hx]
      push_cast
      ring
    rw [hmul,Nat.div_one]
    by_cases hfit : c*x%2^32+c*200 < 2^31
    · rw [wrap32_natCast hfit]
      omega
    · rw [wrap32_natCast_of_ge (by omega) (by omega)]
      omega
  · have hhalf : x/n ≤ x/2 := Nat.div_le_div_left hn2 (by decide)
    obtain rfl | hc2 : c = 1 ∨ 2 ≤ c := by omega
    · rw [Nat.one_mul,Nat.one_mul,Nat.mod_eq_of_lt hx,hframes]
      simp
    · have hmul : (c : ℤ)*((x/n+200 : ℕ)-2^32) ≤ 2*((x/n+200 : ℕ)-2^32) :=
        mul_le_mul_of_nonpos_right (by omega) (by omega)
      have hpos : 0 ≤ c*x%2^32/n := Nat.zero_le _
      by_cases hfit : c*x%2^32/n+c*200 < 2^31
      · rw [wrap32_natCast hfit]
        omega
      · rw [wrap32_natCast_of_ge (by omega) (by omega)]
        omega

theorem room_iff (hc : 0 < c) (hn : 0 < n) (h200 : c*200 < 2^31) (h : x/n+200 < 2^31) :
    (c : ℤ)*wrap32 (x/n+200 : ℕ) ≤ wrap32 (c*x%2^32/n+c*200 : ℕ) ↔
      c*(x/n*n)+c*(x%n)%2^32 < 2^32 ∧ c*(x/n)+c*(x%n)%2^32/n+c*200 < 2^31 := by
  have hsize : c*x%2^32/n ≤ c*x%2^32 := Nat.div_le_self _ _
  have hmod : c*x%2^32 < 2^32 := Nat.mod_lt _ (by decide)
  have hroom : (c : ℤ)*(x/n+200 : ℕ) = (c*(x/n)+c*200 : ℕ) := by
    push_cast
    ring
  rw [wrap32_natCast h,hroom]
  by_cases hw : c*(x/n*n)+c*(x%n)%2^32 < 2^32
  · rw [quotient_of_lt hn hw] at hsize ⊢
    generalize c*(x%n)%2^32/n = z at hsize ⊢
    by_cases hfit : c*(x/n)+z+c*200 < 2^31
    · rw [wrap32_natCast hfit]
      omega
    · rw [wrap32_natCast_of_ge (by omega) (by omega)]
      omega
  · have hq := quotient_of_ge (not_lt.mp hw)
    by_cases hfit : c*x%2^32/n+c*200 < 2^31
    · rw [wrap32_natCast hfit]
      omega
    · rw [wrap32_natCast_of_ge (by omega) (by omega)]
      omega

end Room

def Fits (channels frames : ℕ) (r : Ratio) : Prop :=
  ∃ n, size channels frames r = some n ∧ channels*remainingOut frames r ≤ n

/-- The samples of the whole quotients, and 200 more for each channel, fit in an int, and
their product does not wrap around before the division. -/
def NoWrap (channels numer x : ℕ) : Prop :=
  channels*(x/numer*numer)+wrapUnsigned (channels*(x%numer)) < 2^32 ∧
    channels*(x/numer)+wrapUnsigned (channels*(x%numer))/numer+channels*200 < 2^31

/-- The buffer has room for all that the loop may store exactly if its size is an int
and either the frames to be written do not fit in an int themselves or the product of
their samples does not wrap around. -/
theorem static_fits_iff {channels frames inputSr outputSr : ℕ} (hchannels : 1 ≤ channels) (hdata : frames*channels < 2^31)
    (hin : 0 < inputSr) (hout : 0 < outputSr) {r : Ratio} (hr : Returns (setRateFrac inputSr outputSr) r) :
    Fits channels frames r ↔ channels*200 < 2^31 ∧
      (2^31 ≤ wrapUnsigned (frames*r.denRate)/r.numRate+200 ∨
        NoWrap channels r.numRate (wrapUnsigned (frames*r.denRate))) := by
  have hpos : 0 < r.numRate := by
    obtain rfl := hr.unique (setRateFrac_returns hin hout)
    exact Nat.div_pos (Nat.gcd_le_left _ hin) (Nat.gcd_pos_of_pos_left _ hin)
  have hx : wrapUnsigned (frames*r.denRate) < 2^32 := Nat.mod_lt _ (by decide)
  have hproduct : wrapUnsigned (frames*channels*r.denRate) = channels*wrapUnsigned (frames*r.denRate)%2^32 := by
    rw [wrapUnsigned,wrapUnsigned,Nat.mul_mod_mod]
    congr 1
    ring
  unfold Fits size remainingOut
  by_cases h200 : channels*200 < 2^31
  · simp only [hdata,h200,and_self,if_true,Option.some.injEq,exists_eq_left',true_and,hproduct]
    by_cases hframes : 2^31 ≤ wrapUnsigned (frames*r.denRate)/r.numRate+200
    · simp only [hframes,true_or,iff_true]
      exact room_of_ge hchannels hpos hx h200 hframes
    · simp only [hframes,false_or]
      exact room_iff hchannels hpos h200 (not_le.mp hframes)
  · simp only [h200,and_false,if_false,reduceCtorEq,false_and,exists_false]

/-- Five seconds of stereo. -/
theorem static_fits_stereo : Fits 2 220500 ⟨147,160⟩ := by
  have hr : Returns (setRateFrac 44100 48000) ⟨147,160⟩ := setRateFrac_returns (by decide) (by decide)
  refine (static_fits_iff (by decide) (by decide) (by decide) (by decide) hr).mpr ⟨by decide,Or.inr ?_⟩
  unfold NoWrap
  decide

/-- Five minutes of stereo. -/
theorem static_overflows : ¬ ∀ (channels frames inputSr outputSr : ℕ), 1 ≤ channels → frames*channels < 2^31 →
    0 < inputSr → inputSr < 2^31 → 0 < outputSr → outputSr < 2^31 → inputSr ≠ outputSr →
    ∀ r, Returns (setRateFrac inputSr outputSr) r → Fits channels frames r := by
  intro hall
  have hr : Returns (setRateFrac 44100 48000) ⟨147,160⟩ := setRateFrac_returns (by decide) (by decide)
  obtain ⟨n,hn,hfits⟩ := hall 2 13500000 44100 48000 (by decide) (by decide) (by decide) (by decide) (by decide) (by decide)
    (by decide) _ hr
  have hsize : size 2 13500000 ⟨147,160⟩ = some 170690 := by decide
  have hroom : remainingOut 13500000 ⟨147,160⟩ = 14694077 := by decide
  rw [hsize,Option.some.injEq] at hn
  rw [hroom,← hn] at hfits
  omega

end StaticResampler
end AudioOutput
