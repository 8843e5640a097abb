import AudioOutput.SpeexCounting

/-!
# The loops of speex

`speex_resampler_process_interleaved_float` down to the loop that computes outputs,
without the magic samples, which only a change of quality leaves behind. The channels
have the same counters, so they are processed together, and the convolution with
a row of the sinc table is left open.
-/

namespace AudioOutput
namespace SpeexResampler

open Resampler

/-- What `speex_resampler_init` sets up; `convolve` makes one output frame of
`filtLen` input frames and of `samp_frac_num`. -/
structure Filter (α : Type) (channels : ℕ) where
  numRate : ℕ
  denRate : ℕ
  filtLen : ℕ
  convolve : ℕ → List α → List α
  numRate_pos : 0 < numRate
  denRate_pos : 0 < denRate
  length_convolve : ∀ sampFracNum window, (convolve sampFracNum window).length = channels

def nearest (numRate denRate : ℕ) (hnum : 0 < numRate) (hden : 0 < denRate) : Filter ℚ 1 where
  numRate := numRate
  denRate := denRate
  filtLen := 1
  convolve _ window := [window.headD 0]
  numRate_pos := hnum
  denRate_pos := hden
  length_convolve _ _ := rfl

structure Counter where
  lastSample : ℕ
  sampFracNum : ℕ
  deriving DecidableEq

variable {α : Type} {channels : ℕ} (f : Filter α channels)

/-- `int_advance` and `frac_advance` are added after each output. -/
def Counter.advance (p : Counter) : Counter :=
  let lastSample := p.lastSample+f.numRate/f.denRate
  let sampFracNum := p.sampFracNum+f.numRate%f.denRate
  if f.denRate ≤ sampFracNum then ⟨lastSample+1,sampFracNum-f.denRate⟩ else ⟨lastSample,sampFracNum⟩

/-- The loop of `resampler_basic_*` with room for a number of outputs: where each output
is computed, and the counter afterwards. -/
def resamplerBasic (inLen : ℕ) : ℕ → Counter → List Counter × Counter
  | 0, p => ([],p)
  | outLen+1, p =>
    if p.lastSample < inLen then
      let r := resamplerBasic inLen outLen (p.advance f)
      (p :: r.1,r.2)
    else ([],p)

/-- `mem` holds the last `filtLen - 1` frames that were consumed. -/
structure State (α : Type) where
  counter : Counter
  mem : List α

/-- The offered frames are already behind the memory, in `mem`. -/
def processNative (s : State α) (mem : List α) (inLen outLen : ℕ) : Processed α (State α) :=
  let r := resamplerBasic f inLen outLen s.counter
  let inLen := if r.2.lastSample < inLen then r.2.lastSample else inLen
  { consumed := inLen
    produced := r.1.length
    samples := r.1.flatMap fun p => f.convolve p.sampFracNum (Buffer.slice mem (p.lastSample*channels) (f.filtLen*channels))
    state := ⟨⟨r.2.lastSample-inLen,r.2.sampFracNum⟩,Buffer.slice mem (inLen*channels) ((f.filtLen-1)*channels)⟩ }

/-- `mem_alloc_size - (filt_len - 1)`, which is `buffer_size`. -/
def xlen : ℕ := 160

/-- The loop of `speex_resampler_process_float`, `n` times at most. -/
def processFloat : ℕ → State α → List α → ℕ → ℕ → Processed α (State α)
  | 0, s, _, _, _ => ⟨0,0,[],s⟩
  | n+1, s, input, ilen, olen =>
    if ilen = 0 ∨ olen = 0 then ⟨0,0,[],s⟩
    else
      let ichunk := min ilen xlen
      let r := processNative f s (s.mem ++ input.take (ichunk*channels)) ichunk olen
      let rest := processFloat n r.state (input.drop (r.consumed*channels)) (ilen-r.consumed) (olen-r.produced)
      ⟨r.consumed+rest.consumed,r.produced+rest.produced,r.samples ++ rest.samples,rest.state⟩

/-- The counter says where output `k` lies when `c` frames have been consumed. -/
structure Counter.Marks (p : Counter) (c k : ℕ) : Prop where
  frac : p.sampFracNum < f.denRate
  total : (c+p.lastSample)*f.denRate+p.sampFracNum = k*f.numRate

variable {f}

namespace Counter.Marks

variable {p : Counter} {c k : ℕ} (h : p.Marks f c k)
include h

theorem position_eq : position f.numRate f.denRate k = c+p.lastSample := by
  rw [position,← h.total,Nat.add_comm,Nat.add_mul_div_right _ _ f.denRate_pos,Nat.div_eq_of_lt h.frac,Nat.zero_add]

theorem advance : (p.advance f).Marks f c (k+1) := by
  have hsplit := Nat.div_add_mod' f.numRate f.denRate
  have hmod := Nat.mod_lt f.numRate f.denRate_pos
  have htotal := h.total
  have hfrac := h.frac
  have hwhole : (c+(p.lastSample+f.numRate/f.denRate))*f.denRate =
      (c+p.lastSample)*f.denRate+f.numRate/f.denRate*f.denRate := by ring
  unfold Counter.advance
  dsimp only
  by_cases hcarry : f.denRate ≤ p.sampFracNum+f.numRate%f.denRate
  · rw [if_pos hcarry]
    refine ⟨by dsimp only; omega,?_⟩
    dsimp only
    rw [← Nat.add_assoc,Nat.succ_mul,hwhole,Nat.succ_mul]
    omega
  · rw [if_neg hcarry]
    refine ⟨by dsimp only; omega,?_⟩
    dsimp only
    rw [hwhole,Nat.succ_mul]
    omega

theorem consume {n : ℕ} (hn : n ≤ p.lastSample) : Counter.Marks f ⟨p.lastSample-n,p.sampFracNum⟩ (c+n) k := by
  refine ⟨h.frac,?_⟩
  have hsame : c+n+(p.lastSample-n) = c+p.lastSample := by omega
  rw [hsame]
  exact h.total

end Counter.Marks

theorem resamplerBasic_le (inLen outLen : ℕ) (p : Counter) : (resamplerBasic f inLen outLen p).1.length ≤ outLen := by
  induction outLen generalizing p with
  | zero => exact le_rfl
  | succ outLen ih =>
    rw [resamplerBasic]
    split
    · exact Nat.succ_le_succ (ih _)
    · exact Nat.zero_le _

/-- The loop goes on until the next output lies behind the input or the room is used up. -/
theorem resamplerBasic_limit (inLen outLen : ℕ) (p : Counter) :
    (resamplerBasic f inLen outLen p).1.length = outLen ∨ inLen ≤ (resamplerBasic f inLen outLen p).2.lastSample := by
  induction outLen generalizing p with
  | zero => exact Or.inl rfl
  | succ outLen ih =>
    rw [resamplerBasic]
    split
    case isTrue hlt => exact (ih (p.advance f)).imp_left (congrArg Nat.succ)
    case isFalse hge => exact Or.inr (not_lt.mp hge)

theorem resamplerBasic_marks (inLen outLen : ℕ) {p : Counter} {c k : ℕ} (h : p.Marks f c k) :
    (resamplerBasic f inLen outLen p).2.Marks f c (k+(resamplerBasic f inLen outLen p).1.length) ∧
      ∀ i < (resamplerBasic f inLen outLen p).1.length, position f.numRate f.denRate (k+i) < c+inLen := by
  induction outLen generalizing p k with
  | zero => exact ⟨h,by simp [resamplerBasic]⟩
  | succ outLen ih =>
    rw [resamplerBasic]
    split
    case isTrue hlt =>
      obtain ⟨hmarks,havailable⟩ := ih h.advance
      refine ⟨by simpa [Nat.add_assoc,Nat.add_comm] using hmarks,fun i hi => ?_⟩
      cases i with
      | zero =>
        rw [Nat.add_zero,h.position_eq]
        omega
      | succ i =>
        rw [Nat.add_comm i,← Nat.add_assoc]
        exact havailable i (by simpa using hi)
    case isFalse hge => exact ⟨h,by simp⟩

/-- A call that was offered `n` frames of input and `room` frames of output has gone on
until one of them was used up. -/
structure Within (channels n room : ℕ) (r : Processed α (State α)) : Prop where
  consumed_le : r.consumed ≤ n
  produced_le : r.produced ≤ room
  length_samples : r.samples.length = r.produced*channels
  limit : r.consumed = n ∨ r.produced = room

theorem processNative_within (s : State α) (mem : List α) (inLen outLen : ℕ) :
    Within channels inLen outLen (processNative f s mem inLen outLen) := by
  have hlimit := resamplerBasic_limit (f := f) inLen outLen s.counter
  refine ⟨?_,resamplerBasic_le inLen outLen s.counter,?_,?_⟩
  · unfold processNative
    dsimp only
    split <;> omega
  · have hlen : ∀ p ∈ (resamplerBasic f inLen outLen s.counter).1, (f.convolve p.sampFracNum
        (Buffer.slice mem (p.lastSample*channels) (f.filtLen*channels))).length = channels :=
      fun p _ => f.length_convolve _ _
    unfold processNative
    dsimp only
    rw [List.length_flatMap,List.map_congr_left hlen]
    simp
  · unfold processNative
    dsimp only
    split <;> omega

theorem processNative_marks {s : State α} {c k : ℕ} (h : s.counter.Marks f c k) (mem : List α) (inLen outLen : ℕ) :
    let r := processNative f s mem inLen outLen
    r.state.counter.Marks f (c+r.consumed) (k+r.produced) ∧
      ∀ i < r.produced, position f.numRate f.denRate (k+i) < c+inLen := by
  obtain ⟨hmarks,havailable⟩ := resamplerBasic_marks inLen outLen h
  refine ⟨hmarks.consume ?_,havailable⟩
  split <;> omega

theorem processFloat_within {n ilen olen : ℕ} (hn : ilen+olen ≤ n) (s : State α) (input : List α) :
    Within channels ilen olen (processFloat f n s input ilen olen) := by
  induction n generalizing s input ilen olen with
  | zero => exact ⟨Nat.zero_le _,Nat.zero_le _,by simp [processFloat],Or.inl (by simp [processFloat]; omega)⟩
  | succ n ih =>
    rw [processFloat]
    by_cases hstop : ilen = 0 ∨ olen = 0
    · rw [if_pos hstop]
      exact ⟨Nat.zero_le _,Nat.zero_le _,by simp,by dsimp only; omega⟩
    · rw [if_neg hstop]
      have hone := processNative_within (f := f) s (s.mem ++ input.take (min ilen xlen*channels)) (min ilen xlen) olen
      dsimp only
      generalize processNative f s (s.mem ++ input.take (min ilen xlen*channels)) (min ilen xlen) olen = r at hone ⊢
      obtain ⟨hconsumed,hproduced,hlen,hlimit⟩ := hone
      have hchunk : 0 < min ilen xlen ∧ min ilen xlen ≤ ilen := by
        unfold xlen
        omega
      have hfuel : ilen-r.consumed+(olen-r.produced) ≤ n := by omega
      have hrest := ih hfuel r.state (input.drop (r.consumed*channels))
      obtain ⟨hconsumed',hproduced',hlen',hlimit'⟩ := hrest
      refine ⟨by dsimp only; omega,by dsimp only; omega,?_,by dsimp only; omega⟩
      dsimp only
      rw [List.length_append,hlen,hlen',Nat.add_mul]

theorem processFloat_marks (n : ℕ) {s : State α} {c k : ℕ} (h : s.counter.Marks f c k) (input : List α) (ilen olen : ℕ) :
    let r := processFloat f n s input ilen olen
    r.state.counter.Marks f (c+r.consumed) (k+r.produced) ∧
      ∀ i < r.produced, position f.numRate f.denRate (k+i) < c+ilen := by
  induction n generalizing s c k input ilen olen with
  | zero => exact ⟨h,by simp [processFloat]⟩
  | succ n ih =>
    rw [processFloat]
    by_cases hstop : ilen = 0 ∨ olen = 0
    · rw [if_pos hstop]
      exact ⟨h,by simp⟩
    · rw [if_neg hstop]
      have hwithin := processNative_within (f := f) s (s.mem ++ input.take (min ilen xlen*channels)) (min ilen xlen) olen
      have hone := processNative_marks h (s.mem ++ input.take (min ilen xlen*channels)) (min ilen xlen) olen
      dsimp only at hone ⊢
      generalize processNative f s (s.mem ++ input.take (min ilen xlen*channels)) (min ilen xlen) olen = r
        at hone hwithin ⊢
      obtain ⟨hmarks,havailable⟩ := hone
      have hconsumed := hwithin.consumed_le
      obtain ⟨hmarks',havailable'⟩ := ih hmarks (input.drop (r.consumed*channels)) (ilen-r.consumed) (olen-r.produced)
      refine ⟨by simpa only [Nat.add_assoc] using hmarks',fun i hi => ?_⟩
      by_cases hfirst : i < r.produced
      · have hposition := havailable i hfirst
        omega
      · have hposition := havailable' (i-r.produced) (by omega)
        have hsame : k+r.produced+(i-r.produced) = k+i := by omega
        rw [hsame] at hposition
        omega

variable (f) in
def speex [Zero α] : Speex α channels where
  State := State α
  initial := ⟨⟨0,0⟩,List.replicate ((f.filtLen-1)*channels) 0⟩
  process s input n room := processFloat f (n+room) s input n room
  consumed_le s input _ _ _ := (processFloat_within le_rfl s input).consumed_le
  produced_le s input _ _ _ := (processFloat_within le_rfl s input).produced_le
  length_samples s input _ _ _ := (processFloat_within le_rfl s input).length_samples
  limit s input _ _ _ := (processFloat_within le_rfl s input).limit

theorem speex_counts [Zero α] : Counts (speex f) f.numRate f.denRate fun s c k => s.counter.Marks f c k where
  start := ⟨f.denRate_pos,by simp [speex]⟩
  next h input n room _ := (processFloat_marks (n+room) h input n room).1
  available h input n room _ := (processFloat_marks (n+room) h input n room).2
  reserved h := by
    rw [h.position_eq]
    exact Nat.le_add_right _ _

end SpeexResampler
end AudioOutput
