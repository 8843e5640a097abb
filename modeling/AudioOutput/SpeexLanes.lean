import AudioOutput.Lanes
import AudioOutput.SpeexResampler

/-!
# The channels of a resampler

A filter that treats all channels alike filters each lane on its own: the counters of
the channels stay the same, and what comes out on a channel is what a resampler with
that channel alone makes of its lane.
-/

namespace AudioOutput
namespace SpeexResampler

open Resampler Buffer

variable {α : Type} [Zero α]

def Filter.joint (g : Filter α 1) (channels : ℕ) : Filter α channels where
  numRate := g.numRate
  denRate := g.denRate
  filtLen := g.filtLen
  convolve sampFracNum window := (List.range channels).map fun i => (g.convolve sampFracNum (lane channels i window)).getD 0 0
  numRate_pos := g.numRate_pos
  denRate_pos := g.denRate_pos
  length_convolve _ _ := by simp

def State.lane (count i : ℕ) (s : State α) : State α := ⟨s.counter,Buffer.lane count i s.mem⟩

def laneProcessed (count i : ℕ) (r : Processed α (State α)) : Processed α (State α) :=
  ⟨r.consumed,r.produced,lane count i r.samples,r.state.lane count i⟩

variable {g : Filter α 1} {channels i n : ℕ}

/-- The loop that counts does not know how many channels there are. -/
theorem resamplerBasic_joint (inLen outLen : ℕ) (p : Counter) :
    resamplerBasic (g.joint channels) inLen outLen p = resamplerBasic g inLen outLen p := by
  induction outLen generalizing p with
  | zero => rfl
  | succ outLen ih =>
    rw [resamplerBasic,resamplerBasic]
    split
    · rw [ih]
      rfl
    · rfl

theorem flatMap_convolve {β : Type} (l : List β) (frac : β → ℕ) (window : β → List α) :
    (l.flatMap fun b => g.convolve (frac b) (window b)) = l.map fun b => (g.convolve (frac b) (window b)).getD 0 0 := by
  induction l with
  | nil => rfl
  | cons b l ih =>
    obtain ⟨x,hx⟩ := List.length_eq_one_iff.mp (g.length_convolve (frac b) (window b))
    rw [List.flatMap_cons,ih,List.map_cons,hx]
    rfl

theorem lane_processNative (hi : i < channels) (s : State α) {mem : List α} (hmem : mem.length = n*channels)
    (inLen outLen : ℕ) : processNative g (s.lane channels i) (lane channels i mem) inLen outLen =
      laneProcessed channels i (processNative (g.joint channels) s mem inLen outLen) := by
  have hsamples (l : List Counter) : lane channels i (l.flatMap fun p => (g.joint channels).convolve p.sampFracNum
        (slice mem (p.lastSample*channels) ((g.joint channels).filtLen*channels))) =
      l.flatMap fun p => g.convolve p.sampFracNum (slice (lane channels i mem) p.lastSample g.filtLen) := by
    rw [lane_flatMap hi fun p => (g.joint channels).length_convolve _ _,flatMap_convolve]
    refine List.map_congr_left fun p _ => ?_
    rw [← lane_slice hi hmem]
    simp [Filter.joint,hi]
  simp only [processNative,laneProcessed,State.lane,resamplerBasic_joint,Nat.mul_one,hsamples]
  rw [lane_slice hi hmem]
  rfl

theorem length_processNative_mem (s : State α) {mem : List α} {inLen : ℕ}
    (hmem : mem.length = (g.filtLen-1+inLen)*channels) (outLen : ℕ) :
    (processNative (g.joint channels) s mem inLen outLen).state.mem.length = (g.filtLen-1)*channels := by
  refine length_slice mem ?_
  rw [← Nat.add_mul,hmem]
  refine Nat.mul_le_mul_right _ ?_
  have hfilt : (g.joint channels).filtLen = g.filtLen := rfl
  split <;> omega

omit [Zero α] in
theorem length_processFloat_samples {f : Filter α channels} (s : State α) (input : List α) (ilen olen : ℕ) :
    (processFloat f n s input ilen olen).samples.length = (processFloat f n s input ilen olen).produced*channels := by
  induction n generalizing s input ilen olen with
  | zero => simp [processFloat]
  | succ n ih =>
    rw [processFloat]
    split
    · simp
    · dsimp only
      rw [List.length_append,(processNative_within s _ _ _).length_samples,ih,Nat.add_mul]

/-- Each channel is resampled on its own. -/
theorem lane_processFloat (hi : i < channels) {s : State α} (hs : s.mem.length = (g.filtLen-1)*channels)
    {input : List α} {ilen : ℕ} (hin : input.length = ilen*channels) (olen : ℕ) :
    processFloat g n (s.lane channels i) (lane channels i input) ilen olen =
        laneProcessed channels i (processFloat (g.joint channels) n s input ilen olen) ∧
      (processFloat (g.joint channels) n s input ilen olen).state.mem.length = (g.filtLen-1)*channels := by
  have hidle : (⟨0,0,[],s.lane channels i⟩ : Processed α (State α)) = laneProcessed channels i ⟨0,0,[],s⟩ := by
    simp [laneProcessed,lane]
  induction n generalizing s input ilen olen with
  | zero => exact ⟨hidle,hs⟩
  | succ n ih =>
    rw [processFloat,processFloat]
    by_cases hstop : ilen = 0 ∨ olen = 0
    · rw [if_pos hstop,if_pos hstop]
      exact ⟨hidle,hs⟩
    · rw [if_neg hstop,if_neg hstop]
      have htake : (input.take (min ilen xlen*channels)).length = min ilen xlen*channels := by
        rw [List.length_take,hin]
        exact Nat.min_eq_left (Nat.mul_le_mul_right _ (min_le_left _ _))
      have hmem : (s.mem ++ input.take (min ilen xlen*channels)).length = (g.filtLen-1+min ilen xlen)*channels := by
        rw [List.length_append,hs,htake,Nat.add_mul]
      have hoffered : (s.lane channels i).mem ++ (lane channels i input).take (min ilen xlen*1) =
          lane channels i (s.mem ++ input.take (min ilen xlen*channels)) := by
        rw [lane_append hi hs htake,lane_take hi hin,Nat.mul_one]
        rfl
      dsimp only
      rw [hoffered,lane_processNative hi s hmem]
      have hwithin := processNative_within (f := g.joint channels) s (s.mem ++ input.take (min ilen xlen*channels))
        (min ilen xlen) olen
      have hsized := length_processNative_mem s hmem olen
      generalize processNative (g.joint channels) s (s.mem ++ input.take (min ilen xlen*channels)) (min ilen xlen) olen =
        r at hwithin hsized ⊢
      have hdrop : (input.drop (r.consumed*channels)).length = (ilen-r.consumed)*channels := by
        rw [List.length_drop,hin,Nat.sub_mul]
      obtain ⟨hrest,hlen⟩ := ih hsized hdrop (olen-r.produced) (by simp [laneProcessed,lane])
      refine ⟨?_,hlen⟩
      have hlane : (laneProcessed channels i r).state = r.state.lane channels i := rfl
      have hconsumed : (laneProcessed channels i r).consumed = r.consumed := rfl
      have hproduced : (laneProcessed channels i r).produced = r.produced := rfl
      rw [hlane,hconsumed,hproduced,Nat.mul_one,← lane_drop hi hin,hrest]
      simp only [laneProcessed]
      rw [lane_append hi hwithin.length_samples (length_processFloat_samples ..)]

end SpeexResampler
end AudioOutput
