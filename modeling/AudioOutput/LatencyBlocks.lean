import AudioOutput.LatencyPredictor
import Mathlib.Algebra.Order.Floor.Ring

/-!
# Latency in blocks

`predictLatencyInBlocks`: the prediction rounded to a number of blocks, moved by one
block if that fell out of the bounds, and at least two.
-/

namespace AudioOutput
namespace LatencyPredictor

universe u
variable {K : Type u} [Field K] [LinearOrder K]

/-- `round`: to the nearest integer, halves away from zero. -/
def roundHalfAway [FloorRing K] (x : K) : ℤ := if 0 ≤ x then ⌊x+1/2⌋ else ⌈x-1/2⌉

/-- One block less above the ceiling, else one more below the floor. -/
def correct (floor ceiling d : K) (b : ℤ) : ℤ :=
  if b*d > ceiling then b-1 else if b*d < floor then b+1 else b

section Rounding

variable [IsStrictOrderedRing K]

theorem abs_roundHalfAway_sub_le [FloorRing K] (x : K) : |roundHalfAway x-x| ≤ 1/2 := by
  unfold roundHalfAway
  rw [abs_le]
  split_ifs with hx
  · have hle := Int.floor_le (x+1/2)
    have hlt := Int.lt_floor_add_one (x+1/2)
    constructor <;> linarith
  · have hle := Int.le_ceil (x-1/2)
    have hlt := Int.ceil_lt_add_one (x-1/2)
    constructor <;> linarith

variable {floor ceiling d x : K} {b k : ℤ}

theorem lt_of_mul_lt_mul (hd : 0 < d) (h : k*d < b*d) : k < b := by
  exact_mod_cast lt_of_mul_lt_mul_of_nonneg_right h hd.le

theorem mul_le_mul_of_le (hd : 0 < d) (h : k ≤ b) : k*d ≤ b*d := by
  have hcast : (k : K) ≤ b := by exact_mod_cast h
  exact mul_le_mul_of_nonneg_right hcast hd.le

/-- A multiple of `d` next to a point between the bounds, corrected, lies between them
itself as soon as any multiple does. -/
theorem correct_admissible (hd : 0 < d) (hfloor : floor ≤ x) (hceiling : x ≤ ceiling) (hnear : |b*d-x| ≤ d/2)
    (hk : floor ≤ k*d ∧ k*d ≤ ceiling) :
    floor ≤ correct floor ceiling d b*d ∧ correct floor ceiling d b*d ≤ ceiling := by
  obtain ⟨hlower,hupper⟩ := abs_le.mp hnear
  unfold correct
  split_ifs with habove hbelow
  -- `k` is below `b`, so one block less is not too little; nor too much, being below `x`
  · have hkb : k ≤ b-1 := Int.le_sub_one_of_lt (lt_of_mul_lt_mul hd (hk.2.trans_lt habove))
    have hle := mul_le_mul_of_le hd hkb
    refine ⟨hk.1.trans hle,?_⟩
    push_cast
    linarith
  · have hbk : b+1 ≤ k := Int.add_one_le_of_lt (lt_of_mul_lt_mul hd (hbelow.trans_le hk.1))
    have hle := mul_le_mul_of_le hd hbk
    refine ⟨?_,hle.trans hk.2⟩
    push_cast
    linarith
  · exact ⟨not_lt.mp hbelow,not_lt.mp habove⟩

theorem two_admissible (hd : 0 < d) (hb : b < 2) (hfloor : floor ≤ b*d) (hk : 2 ≤ k) (hceiling : k*d ≤ ceiling) :
    floor ≤ (2 : ℤ)*d ∧ (2 : ℤ)*d ≤ ceiling :=
  ⟨hfloor.trans (mul_le_mul_of_le hd hb.le),(mul_le_mul_of_le hd hk).trans hceiling⟩

end Rounding

def predictLatencyInBlocks [FloorRing K] (p : LatencyPredictor K) (blockFrames sr : ℤ) : ℤ :=
  let blockDuration : K := blockFrames/sr
  let blocksEstimate := p.predictLatency/blockDuration
  let blocks := correct p.minAllowedLatency p.maxAllowedLatency blockDuration (roundHalfAway blocksEstimate)
  if blocks < 2 then 2 else blocks

theorem two_le_predictLatencyInBlocks [FloorRing K] (p : LatencyPredictor K) (blockFrames sr : ℤ) :
    2 ≤ p.predictLatencyInBlocks blockFrames sr := by
  simp only [predictLatencyInBlocks]
  split_ifs with h
  · exact le_rfl
  · exact not_lt.mp h

omit [Field K] in
theorem Inv.le_ceiling {p : LatencyPredictor K} (h : Inv p) : p.lastPredictedLatency ≤ p.maxAllowedLatency := by
  rw [h.predicted]
  exact max_le h.bounds (min_le_left _ _)

variable [IsStrictOrderedRing K]

/-- Wherever the prediction lies between the bounds, so does the number of blocks, if any
number from two on does. -/
theorem Inv.admissible [FloorRing K] {p : LatencyPredictor K} (hp : Inv p) {blockFrames sr k : ℤ}
    (hframes : 0 < blockFrames) (hsr : 0 < sr) (hk : 2 ≤ k)
    (hbounds : p.minAllowedLatency ≤ k*(blockFrames/sr : K) ∧ k*(blockFrames/sr : K) ≤ p.maxAllowedLatency) :
    p.minAllowedLatency ≤ p.predictLatencyInBlocks blockFrames sr*(blockFrames/sr : K) ∧
      p.predictLatencyInBlocks blockFrames sr*(blockFrames/sr : K) ≤ p.maxAllowedLatency := by
  have hd : (0 : K) < blockFrames/sr := div_pos (by exact_mod_cast hframes) (by exact_mod_cast hsr)
  simp only [predictLatencyInBlocks]
  generalize (blockFrames/sr : K) = d at hd hbounds ⊢
  have hnear : |roundHalfAway (p.predictLatency/d)*d-p.predictLatency| ≤ d/2 := by
    calc
      |roundHalfAway (p.predictLatency/d)*d-p.predictLatency|
          = d*|roundHalfAway (p.predictLatency/d)-p.predictLatency/d| := by
            rw [← abs_of_pos hd,← abs_mul,abs_of_pos hd,mul_sub,mul_div_cancel₀ _ hd.ne',mul_comm d]
      _ ≤ d*(1/2) := mul_le_mul_of_nonneg_left (abs_roundHalfAway_sub_le _) hd.le
      _ = d/2 := by ring
  have hcorrect := correct_admissible hd hp.floor_le hp.le_ceiling hnear hbounds
  split_ifs with htwo
  · exact two_admissible hd htwo hcorrect.1 hk hbounds.2
  · exact hcorrect

/-- In every state that passes and underruns lead to, the number of blocks is at least two,
and its duration is between the floor and the ceiling whenever that of two or more
blocks can be. -/
theorem blocks_admissible [FloorRing K] {n : ℕ} (hn : 0 < n) {minAllowed start maxAllowed : K}
    (hmin : minAllowed ≤ start) (hmax : start ≤ maxAllowed) (es : List (Event K)) {blockFrames sr : ℤ}
    (hframes : 0 < blockFrames) (hsr : 0 < sr) :
    let p := (new n hn minAllowed start maxAllowed).run es
    let b := p.predictLatencyInBlocks blockFrames sr
    2 ≤ b ∧ ((∃ k : ℤ, 2 ≤ k ∧ p.minAllowedLatency ≤ k*(blockFrames/sr : K) ∧
        k*(blockFrames/sr : K) ≤ p.maxAllowedLatency) →
      p.minAllowedLatency ≤ b*(blockFrames/sr : K) ∧ b*(blockFrames/sr : K) ≤ p.maxAllowedLatency) := by
  intro p b
  have hp : Inv p := ((new_inv hn hmin hmax).run es).1
  refine ⟨two_le_predictLatencyInBlocks ..,?_⟩
  rintro ⟨k,hk,hbounds⟩
  exact hp.admissible hframes hsr hk hbounds

/-- Blocks of 10 ms for passes of 30 ms: three of them are within the bounds. -/
theorem blocks_admissible_onePass :
    let p := (new 2 Nat.two_pos (1/100 : ℚ) (1/50) (1/20)).run onePass
    p.predictLatencyInBlocks 480 48000 = 3 ∧
      p.minAllowedLatency ≤ p.predictLatencyInBlocks 480 48000*((480 : ℤ)/(48000 : ℤ) : ℚ) ∧
      p.predictLatencyInBlocks 480 48000*((480 : ℤ)/(48000 : ℤ) : ℚ) ≤ p.maxAllowedLatency := by
  intro p
  have hthree : p.predictLatencyInBlocks 480 48000 = 3 := by decide +kernel
  have hbounds := (blocks_admissible Nat.two_pos (show (1/100 : ℚ) ≤ 1/50 by norm_num)
    (show (1/50 : ℚ) ≤ 1/20 by norm_num) onePass (show (0 : ℤ) < 480 by decide) (show (0 : ℤ) < 48000 by decide)).2
  have hmin : p.minAllowedLatency = 1/100 := rfl
  have hmax : p.maxAllowedLatency = 1/20 := rfl
  exact ⟨hthree,hbounds ⟨2,le_rfl,by rw [hmin]; norm_num,by rw [hmax]; norm_num⟩⟩

end LatencyPredictor
end AudioOutput
