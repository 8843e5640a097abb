import AudioOutput.Accumulation
import AudioOutput.MixingMatrices

/-!
# Remixing

The six loops that add channels into an output, for interleaved samples and for
one array a channel, and the two functions that choose among them. Coefficients
are rationals; `lit` makes samples of them.
-/

namespace AudioOutput
namespace Remix

open Program

variable {α : Type}

def addToChannel [Add α] (outputs : List (List α)) (channel i : ℕ) (x : α) : Program Empty (List (List α)) := do
  let out ← Buffer.load outputs channel
  let out ← Buffer.modify out i (· + x)
  Buffer.modify outputs channel fun _ => out

section Loops

variable [Add α]

def upmixMonoUninterleaved (frames : ℕ) (input : List α) (outputChannels : ℕ) (outputs : List (List α)) :
    Program Empty (List (List α)) :=
  forLoop frames (fun i outputs =>
    forLoop outputChannels (fun j outputs => do
      addToChannel outputs j i (← Buffer.load input i)) outputs) outputs

def upmixMonoInterleaved (frames : ℕ) (input : List α) (outputChannels : ℕ) (output : List α) :
    Program Empty (List α) :=
  stridedLoop frames 1 outputChannels (fun i j output =>
    forLoop outputChannels (fun chan output => do
      let x ← Buffer.load input i
      Buffer.modify output (j+chan) (· + x)) output) output

def mixUnrecognizedUninterleaved (frames inputChannels : ℕ) (inputs : List (List α)) (outputChannels : ℕ)
    (outputs : List (List α)) : Program Empty (List (List α)) :=
  let neededChannels := min inputChannels outputChannels
  forLoop neededChannels (fun i outputs =>
    forLoop frames (fun frame outputs => do
      let input ← Buffer.load inputs i
      addToChannel outputs i frame (← Buffer.load input frame)) outputs) outputs

def mixUnrecognizedInterleaved (frames inputChannels : ℕ) (input : List α) (outputChannels : ℕ)
    (output : List α) : Program Empty (List α) :=
  let neededChannels := min inputChannels outputChannels
  stridedLoop (frames*inputChannels) inputChannels outputChannels (fun inp out output =>
    forLoop neededChannels (fun j output => do
      let x ← Buffer.load input (inp+j)
      Buffer.modify output (out+j) (· + x)) output) output

variable [Mul α] (lit : ℚ → α)

def applyMixingMatrixUninterleaved (matrix : List ℚ) (inputChannels outputChannels frames : ℕ)
    (inputs outputs : List (List α)) : Program Empty (List (List α)) :=
  forLoop frames (fun i outputs => do
    let frame ← forLoop inputChannels (fun j frame => do
      let input ← Buffer.load inputs j
      return frame ++ [← Buffer.load input i]) []
    forLoop outputChannels (fun row outputs =>
      forLoop inputChannels (fun column outputs => do
        let x ← Buffer.load frame column
        let c ← Buffer.load matrix (row*inputChannels+column)
        addToChannel outputs row i (x*lit c)) outputs) outputs) outputs

def applyMixingMatrixInterleaved (matrix : List ℚ) (inputChannels outputChannels frames : ℕ)
    (input output : List α) : Program Empty (List α) :=
  stridedLoop (inputChannels*frames) inputChannels outputChannels (fun inp out output => do
    let frame ← Buffer.region input inp inputChannels
    forLoop outputChannels (fun row output =>
      forLoop inputChannels (fun column output => do
        let c ← Buffer.load matrix (row*inputChannels+column)
        let x ← Buffer.load frame column
        Buffer.modify output (out+row) (· + lit c*x)) output) output) output

end Loops

variable [Zero α]

/-- `if(zeroFirst) std::fill(output, output+frames*outputChannels, 0.0f);` -/
def zeroInterleaved (frames outputChannels : ℕ) (output : List α) (zeroFirst : Bool) : Program Empty (List α) :=
  if zeroFirst then Buffer.store output 0 (List.replicate (frames*outputChannels) 0) else pure output

def zeroUninterleaved (frames outputChannels : ℕ) (outputs : List (List α)) (zeroFirst : Bool) :
    Program Empty (List (List α)) :=
  if zeroFirst then
    forLoop outputChannels (fun i outputs => do
      let out ← Buffer.load outputs i
      let out ← Buffer.store out 0 (List.replicate frames 0)
      Buffer.modify outputs i fun _ => out) outputs
  else pure outputs

variable [Add α] [Mul α] (lit : ℚ → α)

def remixAudioInterleaved (frames inputChannels : ℕ) (input : List α) (outputChannels : ℕ) (output : List α)
    (zeroFirst : Bool) : Program Empty (List α) := do
  let output ← zeroInterleaved frames outputChannels output zeroFirst
  if inputChannels = 1 ∧ outputChannels = 2 then
    applyMixingMatrixInterleaved lit mixingMatrix_1_2 1 2 frames input output
  else if inputChannels = 1 ∧ outputChannels = 4 then
    applyMixingMatrixInterleaved lit mixingMatrix_1_4 1 4 frames input output
  else if inputChannels = 1 ∧ outputChannels = 6 then
    applyMixingMatrixInterleaved lit mixingMatrix_1_6 1 6 frames input output
  else if inputChannels = 1 ∧ outputChannels = 8 then
    applyMixingMatrixInterleaved lit mixingMatrix_1_8 1 8 frames input output
  else if inputChannels = 1 then upmixMonoInterleaved frames input outputChannels output
  else if inputChannels = 2 ∧ outputChannels = 1 then
    applyMixingMatrixInterleaved lit mixingMatrix_2_1 2 1 frames input output
  else if inputChannels = 2 ∧ outputChannels = 4 then
    applyMixingMatrixInterleaved lit mixingMatrix_2_4 2 4 frames input output
  else if inputChannels = 2 ∧ outputChannels = 6 then
    applyMixingMatrixInterleaved lit mixingMatrix_2_6 2 6 frames input output
  else if inputChannels = 2 ∧ outputChannels = 8 then
    applyMixingMatrixInterleaved lit mixingMatrix_2_8 2 8 frames input output
  else if inputChannels = 4 ∧ outputChannels = 1 then
    applyMixingMatrixInterleaved lit mixingMatrix_4_1 4 1 frames input output
  else if inputChannels = 4 ∧ outputChannels = 2 then
    applyMixingMatrixInterleaved lit mixingMatrix_4_2 4 2 frames input output
  else if inputChannels = 4 ∧ outputChannels = 6 then
    applyMixingMatrixInterleaved lit mixingMatrix_4_6 4 6 frames input output
  else if inputChannels = 4 ∧ outputChannels = 8 then
    applyMixingMatrixInterleaved lit mixingMatrix_4_8 4 8 frames input output
  else if inputChannels = 6 ∧ outputChannels = 1 then
    applyMixingMatrixInterleaved lit mixingMatrix_6_1 6 1 frames input output
  else if inputChannels = 6 ∧ outputChannels = 2 then
    applyMixingMatrixInterleaved lit mixingMatrix_6_2 6 2 frames input output
  else if inputChannels = 6 ∧ outputChannels = 4 then
    applyMixingMatrixInterleaved lit mixingMatrix_6_4 6 4 frames input output
  else if inputChannels = 6 ∧ outputChannels = 8 then
    applyMixingMatrixInterleaved lit mixingMatrix_6_8 6 8 frames input output
  else if inputChannels = 8 ∧ outputChannels = 1 then
    applyMixingMatrixInterleaved lit mixingMatrix_8_1 8 1 frames input output
  else if inputChannels = 8 ∧ outputChannels = 2 then
    applyMixingMatrixInterleaved lit mixingMatrix_8_2 8 2 frames input output
  else if inputChannels = 8 ∧ outputChannels = 4 then
    applyMixingMatrixInterleaved lit mixingMatrix_8_4 8 4 frames input output
  else if inputChannels = 8 ∧ outputChannels = 6 then
    applyMixingMatrixInterleaved lit mixingMatrix_8_6 8 6 frames input output
  else mixUnrecognizedInterleaved frames inputChannels input outputChannels output

def remixAudioUninterleaved (frames inputChannels : ℕ) (inputs : List (List α)) (outputChannels : ℕ)
    (outputs : List (List α)) (zeroFirst : Bool) : Program Empty (List (List α)) := do
  let outputs ← zeroUninterleaved frames outputChannels outputs zeroFirst
  if inputChannels = 1 ∧ outputChannels = 2 then
    applyMixingMatrixUninterleaved lit mixingMatrix_1_2 1 2 frames inputs outputs
  else if inputChannels = 1 ∧ outputChannels = 4 then
    applyMixingMatrixUninterleaved lit mixingMatrix_1_4 1 4 frames inputs outputs
  else if inputChannels = 1 ∧ outputChannels = 6 then
    applyMixingMatrixUninterleaved lit mixingMatrix_1_6 1 6 frames inputs outputs
  else if inputChannels = 1 ∧ outputChannels = 8 then
    applyMixingMatrixUninterleaved lit mixingMatrix_1_8 1 8 frames inputs outputs
  else if inputChannels = 1 then do upmixMonoUninterleaved frames (← Buffer.load inputs 0) outputChannels outputs
  else if inputChannels = 2 ∧ outputChannels = 1 then
    applyMixingMatrixUninterleaved lit mixingMatrix_2_1 2 1 frames inputs outputs
  else if inputChannels = 2 ∧ outputChannels = 4 then
    applyMixingMatrixUninterleaved lit mixingMatrix_2_4 2 4 frames inputs outputs
  else if inputChannels = 2 ∧ outputChannels = 6 then
    applyMixingMatrixUninterleaved lit mixingMatrix_2_6 2 6 frames inputs outputs
  else if inputChannels = 2 ∧ outputChannels = 8 then
    applyMixingMatrixUninterleaved lit mixingMatrix_2_8 2 8 frames inputs outputs
  else if inputChannels = 4 ∧ outputChannels = 1 then
    applyMixingMatrixUninterleaved lit mixingMatrix_4_1 4 1 frames inputs outputs
  else if inputChannels = 4 ∧ outputChannels = 2 then
    applyMixingMatrixUninterleaved lit mixingMatrix_4_2 4 2 frames inputs outputs
  else if inputChannels = 4 ∧ outputChannels = 6 then
    applyMixingMatrixUninterleaved lit mixingMatrix_4_6 4 6 frames inputs outputs
  else if inputChannels = 4 ∧ outputChannels = 8 then
    applyMixingMatrixUninterleaved lit mixingMatrix_4_8 4 8 frames inputs outputs
  else if inputChannels = 6 ∧ outputChannels = 1 then
    applyMixingMatrixUninterleaved lit mixingMatrix_6_1 6 1 frames inputs outputs
  else if inputChannels = 6 ∧ outputChannels = 2 then
    applyMixingMatrixUninterleaved lit mixingMatrix_6_2 6 2 frames inputs outputs
  else if inputChannels = 6 ∧ outputChannels = 4 then
    applyMixingMatrixUninterleaved lit mixingMatrix_6_4 6 4 frames inputs outputs
  else if inputChannels = 6 ∧ outputChannels = 8 then
    applyMixingMatrixUninterleaved lit mixingMatrix_6_8 6 8 frames inputs outputs
  else if inputChannels = 8 ∧ outputChannels = 1 then
    applyMixingMatrixUninterleaved lit mixingMatrix_8_1 8 1 frames inputs outputs
  else if inputChannels = 8 ∧ outputChannels = 2 then
    applyMixingMatrixUninterleaved lit mixingMatrix_8_2 8 2 frames inputs outputs
  else if inputChannels = 8 ∧ outputChannels = 4 then
    applyMixingMatrixUninterleaved lit mixingMatrix_8_4 8 4 frames inputs outputs
  else if inputChannels = 8 ∧ outputChannels = 6 then
    applyMixingMatrixUninterleaved lit mixingMatrix_8_6 8 6 frames inputs outputs
  else mixUnrecognizedUninterleaved frames inputChannels inputs outputChannels outputs

inductive Kernel
  | matrix (M : List ℚ)
  | mono
  | unrecognized

def kernel (inputChannels outputChannels : ℕ) : Kernel :=
  if inputChannels = 1 ∧ outputChannels = 2 then .matrix mixingMatrix_1_2
  else if inputChannels = 1 ∧ outputChannels = 4 then .matrix mixingMatrix_1_4
  else if inputChannels = 1 ∧ outputChannels = 6 then .matrix mixingMatrix_1_6
  else if inputChannels = 1 ∧ outputChannels = 8 then .matrix mixingMatrix_1_8
  else if inputChannels = 1 then .mono
  else if inputChannels = 2 ∧ outputChannels = 1 then .matrix mixingMatrix_2_1
  else if inputChannels = 2 ∧ outputChannels = 4 then .matrix mixingMatrix_2_4
  else if inputChannels = 2 ∧ outputChannels = 6 then .matrix mixingMatrix_2_6
  else if inputChannels = 2 ∧ outputChannels = 8 then .matrix mixingMatrix_2_8
  else if inputChannels = 4 ∧ outputChannels = 1 then .matrix mixingMatrix_4_1
  else if inputChannels = 4 ∧ outputChannels = 2 then .matrix mixingMatrix_4_2
  else if inputChannels = 4 ∧ outputChannels = 6 then .matrix mixingMatrix_4_6
  else if inputChannels = 4 ∧ outputChannels = 8 then .matrix mixingMatrix_4_8
  else if inputChannels = 6 ∧ outputChannels = 1 then .matrix mixingMatrix_6_1
  else if inputChannels = 6 ∧ outputChannels = 2 then .matrix mixingMatrix_6_2
  else if inputChannels = 6 ∧ outputChannels = 4 then .matrix mixingMatrix_6_4
  else if inputChannels = 6 ∧ outputChannels = 8 then .matrix mixingMatrix_6_8
  else if inputChannels = 8 ∧ outputChannels = 1 then .matrix mixingMatrix_8_1
  else if inputChannels = 8 ∧ outputChannels = 2 then .matrix mixingMatrix_8_2
  else if inputChannels = 8 ∧ outputChannels = 4 then .matrix mixingMatrix_8_4
  else if inputChannels = 8 ∧ outputChannels = 6 then .matrix mixingMatrix_8_6
  else .unrecognized

/-- What one frame adds to an output channel, in the order of the additions. -/
def Kernel.terms (inputChannels : ℕ) (x : ℕ → α) (row : ℕ) : Kernel → List α
  | .matrix M => (List.range inputChannels).map fun column => lit (M.getD (row*inputChannels+column) 0)*x column
  | .mono => [x 0]
  | .unrecognized => if row < inputChannels then [x row] else []

omit [Zero α] [Add α] in
theorem Kernel.terms_congr (K : Kernel) {m : ℕ} {x y : ℕ → α} (hm : 1 ≤ m) (j : ℕ) (h : ∀ k < m, x k = y k) :
    K.terms lit m x j = K.terms lit m y j := by
  cases K with
  | matrix M =>
    refine List.map_congr_left fun k hk => ?_
    rw [h k (List.mem_range.mp hk)]
  | mono => rw [Kernel.terms,Kernel.terms,h 0 hm]
  | unrecognized =>
    by_cases hj : j < m
    · simp only [Kernel.terms,h j hj]
    · simp only [Kernel.terms,if_neg hj]

end Remix
end AudioOutput
