import AudioOutput.RingBuffer
import Mathlib.Algebra.Order.Field.Basic
import Mathlib.Tactic

/-!
# Predicting latency

`LatencyPredictor` in exact arithmetic, with what it is for: the longest of the last
passes, held between a floor that underruns raise and a fixed ceiling.
-/

namespace AudioOutput

universe u
variable {K : Type u}

structure LatencyPredictor (K : Type u) where
  history : List K
  writePointer : ℕ
  inside : writePointer < history.length
  minAllowedLatency : K
  maxAllowedLatency : K
  lastPredictedLatency : K
  passStartTime : K

namespace LatencyPredictor

theorem history_ne_nil (p : LatencyPredictor K) : p.history ≠ [] :=
  List.ne_nil_of_length_pos (Nat.zero_lt_of_lt p.inside)

variable [Field K] [LinearOrder K]

def latencyIncrementForUnderrun : K := 0.005

def new (historyLength : ℕ) (h : 0 < historyLength) (minAllowedLatency startLatency maxAllowedLatency : K) :
    LatencyPredictor K where
  history := List.replicate historyLength startLatency
  writePointer := 0
  inside := RingBuffer.inside_replicate h startLatency
  minAllowedLatency := minAllowedLatency
  maxAllowedLatency := maxAllowedLatency
  lastPredictedLatency := startLatency
  passStartTime := 0

def doPrediction (p : LatencyPredictor K) : LatencyPredictor K :=
  let longest := p.history.max p.history_ne_nil
  let raised := if longest < p.minAllowedLatency then p.minAllowedLatency else longest
  let predicted := if raised > p.maxAllowedLatency then p.maxAllowedLatency else raised
  { p with lastPredictedLatency := predicted }

/-- `now` is what the clock says. -/
def beginPass (p : LatencyPredictor K) (now : K) : LatencyPredictor K := { p with passStartTime := now }

def record (p : LatencyPredictor K) (timeInSeconds : K) : LatencyPredictor K :=
  { p with
    history := p.history.set p.writePointer timeInSeconds
    writePointer := (p.writePointer+1)%p.history.length
    inside := by
      rw [List.length_set]
      exact Nat.mod_lt _ (Nat.zero_lt_of_lt p.inside) }

def endPass (p : LatencyPredictor K) (now : K) : LatencyPredictor K :=
  (p.record (now-p.passStartTime)).doPrediction

def hadUnderrun (p : LatencyPredictor K) : LatencyPredictor K :=
  let proposed := latencyIncrementForUnderrun+p.lastPredictedLatency
  let limited := if proposed > p.maxAllowedLatency then p.maxAllowedLatency else proposed
  { p with minAllowedLatency := limited }.doPrediction

def predictLatency (p : LatencyPredictor K) : K := p.lastPredictedLatency

inductive Event (K : Type u)
  | beginPass (now : K)
  | endPass (now : K)
  | hadUnderrun

def step (p : LatencyPredictor K) : Event K → LatencyPredictor K
  | .beginPass now => p.beginPass now
  | .endPass now => p.endPass now
  | .hadUnderrun => p.hadUnderrun

def run (p : LatencyPredictor K) (es : List (Event K)) : LatencyPredictor K := es.foldl step p

def clamp (floor ceiling x : K) : K := max floor (min ceiling x)

def durations : K → List (Event K) → List K
  | _, [] => []
  | _, .beginPass now :: es => durations now es
  | start, .endPass now :: es => (now-start) :: durations start es
  | start, .hadUnderrun :: es => durations start es

/-- The last `n` of the durations, missing ones counted as the start latency. -/
def lastDurations (n : ℕ) (startLatency : K) (ds : List K) : List K :=
  (List.replicate n startLatency ++ ds).drop ds.length

omit [Field K] [LinearOrder K] in
theorem lastDurations_ne_nil {n : ℕ} (hn : 0 < n) (startLatency : K) (ds : List K) : lastDurations n startLatency ds ≠ [] := by
  apply List.ne_nil_of_length_pos
  rw [lastDurations,List.length_drop,List.length_append,List.length_replicate]
  omega

omit [Field K] in
/-- The largest element does not depend on the order. -/
theorem max_perm {xs ys : List K} (h : xs.Perm ys) (hx : xs ≠ []) (hy : ys ≠ []) : xs.max hx = ys.max hy := by
  obtain ⟨hmem,hle⟩ := (List.max_eq_iff hy).mp rfl
  exact (List.max_eq_iff hx).mpr ⟨h.mem_iff.mpr hmem,fun x hx => hle x (h.mem_iff.mp hx)⟩

omit [Field K] in
theorem max_replicate {n : ℕ} (x : K) (h : List.replicate n x ≠ []) : (List.replicate n x).max h = x := by
  have hn : n ≠ 0 := by
    rintro rfl
    exact h rfl
  exact (List.max_eq_iff h).mpr ⟨List.mem_replicate.mpr ⟨hn,rfl⟩,fun y hy => (List.eq_of_mem_replicate hy).le⟩

/-- The history and its pointer as a ring buffer. -/
def ring (p : LatencyPredictor K) : RingBuffer K := ⟨p.history,p.writePointer,p.inside⟩

theorem step_ring (p : LatencyPredictor K) (e : Event K) :
    (p.step e).ring = (durations p.passStartTime [e]).foldl RingBuffer.push p.ring := by
  cases e <;> rfl

theorem durations_cons (p : LatencyPredictor K) (e : Event K) (es : List (Event K)) :
    durations p.passStartTime (e :: es) = durations p.passStartTime [e] ++ durations (p.step e).passStartTime es := by
  cases e <;> rfl

theorem run_ring (p : LatencyPredictor K) (es : List (Event K)) :
    (p.run es).ring = (durations p.passStartTime es).foldl RingBuffer.push p.ring := by
  induction es generalizing p with
  | nil => rfl
  | cons e es ih => rw [run,List.foldl_cons,← run,ih,durations_cons,List.foldl_append,step_ring]

/-- The ring buffer holds exactly the last durations, in some order. -/
theorem history_perm {n : ℕ} (hn : 0 < n) (minAllowed start maxAllowed : K) (es : List (Event K)) :
    ((new n hn minAllowed start maxAllowed).run es).history.Perm (lastDurations n start (durations 0 es)) := by
  have hcontents : ((new n hn minAllowed start maxAllowed).run es).ring.contents =
      lastDurations n start (durations 0 es) := by
    rw [run_ring]
    exact RingBuffer.contents_foldl_push n hn start (durations 0 es)
  rw [← hcontents]
  exact ((new n hn minAllowed start maxAllowed).run es).ring.contents_perm.symm

structure Inv (p : LatencyPredictor K) : Prop where
  bounds : p.minAllowedLatency ≤ p.maxAllowedLatency
  predicted : p.lastPredictedLatency = clamp p.minAllowedLatency p.maxAllowedLatency (p.history.max p.history_ne_nil)

omit [Field K] in
theorem le_clamp (floor ceiling x : K) : floor ≤ clamp floor ceiling x := le_max_left _ _

omit [Field K] in
/-- The two comparisons of `doPrediction` clamp. -/
theorem ifs_eq_clamp {floor ceiling : K} (h : floor ≤ ceiling) (x : K) :
    (if (if x < floor then floor else x) > ceiling then ceiling else if x < floor then floor else x) =
      clamp floor ceiling x := by
  by_cases hx : x < floor
  · rw [if_pos hx,if_neg (not_lt.mpr h),clamp,min_eq_right (hx.le.trans h),max_eq_left hx.le]
  · rw [if_neg hx]
    have hfloor := not_lt.mp hx
    by_cases hx' : x > ceiling
    · rw [if_pos hx',clamp,min_eq_left hx'.le,max_eq_right h]
    · rw [if_neg hx',clamp,min_eq_right (not_lt.mp hx'),max_eq_right hfloor]

omit [Field K] in
theorem doPrediction_inv {p : LatencyPredictor K} (h : p.minAllowedLatency ≤ p.maxAllowedLatency) : Inv p.doPrediction :=
  ⟨h,ifs_eq_clamp h _⟩

theorem new_inv {n : ℕ} (hn : 0 < n) {minAllowed start maxAllowed : K} (hmin : minAllowed ≤ start) (hmax : start ≤ maxAllowed) :
    Inv (new n hn minAllowed start maxAllowed) := by
  refine ⟨hmin.trans hmax,?_⟩
  simp only [new,max_replicate,clamp,min_eq_right hmax,max_eq_right hmin]

theorem hadUnderrun_floor (p : LatencyPredictor K) :
    p.hadUnderrun.minAllowedLatency = min p.maxAllowedLatency (p.predictLatency+latencyIncrementForUnderrun) := by
  simp only [hadUnderrun,doPrediction,predictLatency,add_comm latencyIncrementForUnderrun]
  split_ifs with h
  · exact (min_eq_left h.le).symm
  · exact (min_eq_right (not_lt.mp h)).symm

omit [Field K] in
theorem Inv.floor_le {p : LatencyPredictor K} (h : Inv p) : p.minAllowedLatency ≤ p.lastPredictedLatency := by
  rw [h.predicted]
  exact le_clamp _ _ _

variable [IsStrictOrderedRing K]

theorem increment_pos : (0 : K) < latencyIncrementForUnderrun := by
  rw [latencyIncrementForUnderrun]
  norm_num

theorem Inv.step {p : LatencyPredictor K} (h : Inv p) (e : Event K) :
    Inv (p.step e) ∧ p.minAllowedLatency ≤ (p.step e).minAllowedLatency ∧
      (p.step e).maxAllowedLatency = p.maxAllowedLatency := by
  cases e with
  | beginPass now => exact ⟨⟨h.bounds,h.predicted⟩,le_rfl,rfl⟩
  | endPass now => exact ⟨doPrediction_inv h.bounds,le_rfl,rfl⟩
  | hadUnderrun =>
    have hfloor := hadUnderrun_floor p
    have hraised : p.minAllowedLatency ≤ p.hadUnderrun.minAllowedLatency := by
      rw [hfloor]
      exact le_min h.bounds (h.floor_le.trans (le_add_of_nonneg_right increment_pos.le))
    have hbelow : p.hadUnderrun.minAllowedLatency ≤ p.maxAllowedLatency := by
      rw [hfloor]
      exact min_le_left _ _
    exact ⟨doPrediction_inv hbelow,hraised,rfl⟩

theorem Inv.run {p : LatencyPredictor K} (h : Inv p) (es : List (Event K)) :
    Inv (p.run es) ∧ p.minAllowedLatency ≤ (p.run es).minAllowedLatency ∧
      (p.run es).maxAllowedLatency = p.maxAllowedLatency := by
  induction es generalizing p with
  | nil => exact ⟨h,le_rfl,rfl⟩
  | cons e es ih =>
    obtain ⟨hstep,hfloor,hceiling⟩ := h.step e
    obtain ⟨hrun,hfloor',hceiling'⟩ := ih hstep
    exact ⟨hrun,hfloor.trans hfloor',hceiling'.trans hceiling⟩

/-- The prediction is the longest of the last `n` passes held between the floor and the
ceiling; the floor starts at `minAllowed`, is never lowered and stays below the ceiling;
and what an underrun has added is never given back. -/
theorem latency_prediction {n : ℕ} (hn : 0 < n) {minAllowed start maxAllowed : K} (hmin : minAllowed ≤ start)
    (hmax : start ≤ maxAllowed) (es es' : List (Event K)) :
    let p := new n hn minAllowed start maxAllowed
    let before := p.run es
    let after := p.run (es ++ es')
    before.predictLatency = clamp before.minAllowedLatency maxAllowed
        ((lastDurations n start (durations 0 es)).max (lastDurations_ne_nil hn _ _)) ∧
      p.minAllowedLatency = minAllowed ∧ before.minAllowedLatency ≤ after.minAllowedLatency ∧
      before.minAllowedLatency ≤ maxAllowed ∧
      ∀ rest, es' = .hadUnderrun :: rest →
        min maxAllowed (before.predictLatency+latencyIncrementForUnderrun) ≤ after.predictLatency := by
  intro p before after
  have hafter : after = before.run es' := List.foldl_append
  obtain ⟨hinv,-,hkept⟩ := (new_inv hn hmin hmax).run es
  have hceiling : before.maxAllowedLatency = maxAllowed := hkept
  refine ⟨?_,rfl,?_,hceiling ▸ hinv.bounds,?_⟩
  · have hpredicted := hinv.predicted
    rw [hkept,max_perm (history_perm hn minAllowed start maxAllowed es) _ (lastDurations_ne_nil hn _ _)] at hpredicted
    exact hpredicted
  · rw [hafter]
    exact (hinv.run es').2.1
  · rintro rest rfl
    obtain ⟨hlast,hraised,-⟩ := (hinv.step .hadUnderrun).1.run rest
    calc
      min maxAllowed (before.predictLatency+latencyIncrementForUnderrun) = before.hadUnderrun.minAllowedLatency := by
        rw [hadUnderrun_floor,hceiling]
      _ ≤ (before.hadUnderrun.run rest).minAllowedLatency := hraised
      _ ≤ (before.hadUnderrun.run rest).predictLatency := hlast.floor_le
      _ = after.predictLatency := by
        rw [hafter]
        rfl

def onePass : List (Event ℚ) := [.beginPass 1,.endPass (103/100)]

/-- An underrun, and two short passes that push the long one out of the history. -/
def underrunAndShortPasses : List (Event ℚ) :=
  [.hadUnderrun,.beginPass 2,.endPass (201/100),.beginPass 3,.endPass (301/100)]

theorem latency_prediction_underrunAndShortPasses :
    ((new 2 (by decide) (1/100 : ℚ) (1/50) (1/20)).run onePass).predictLatency = 3/100 ∧
    7/200 ≤ ((new 2 (by decide) (1/100 : ℚ) (1/50) (1/20)).run (onePass ++ underrunAndShortPasses)).predictLatency := by
  have hbefore : ((new 2 (by decide) (1/100 : ℚ) (1/50) (1/20)).run onePass).predictLatency = 3/100 := by
    decide +kernel
  have hkept := (latency_prediction (n := 2) (by decide) (show (1/100 : ℚ) ≤ 1/50 by norm_num)
    (show (1/50 : ℚ) ≤ 1/20 by norm_num) onePass underrunAndShortPasses).2.2.2.2 _ rfl
  rw [hbefore] at hkept
  refine ⟨hbefore,le_trans ?_ hkept⟩
  norm_num [latencyIncrementForUnderrun]

end LatencyPredictor
end AudioOutput
