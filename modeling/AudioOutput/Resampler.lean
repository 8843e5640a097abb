import AudioOutput.Program
import Mathlib.Data.Rat.Defs

/-!
# The resampler wrapper

`ResamplerImplementation`: blocks of input wait in a queue, their frames are
offered to speex as output is asked for, and used-up blocks are kept for reuse.
Lengths handed to speex are in frames, offsets are in samples.
-/

namespace AudioOutput
namespace Resampler

open Program

/-- What one call of `speex_resampler_process_interleaved_float` gives back: the two
lengths, the samples it has stored, and its new state. -/
structure Processed (α State : Type) where
  consumed : ℕ
  produced : ℕ
  samples : List α
  state : State

/-- An initialised speex resampler. A call is offered `n` frames of input and `room`
frames of output, and goes on until one of them is used up. -/
structure Speex (α : Type) (channels : ℕ) where
  State : Type
  initial : State
  process : State → List α → ℕ → ℕ → Processed α State
  consumed_le : ∀ s input n room, input.length = n*channels → (process s input n room).consumed ≤ n
  produced_le : ∀ s input n room, input.length = n*channels → (process s input n room).produced ≤ room
  length_samples : ∀ s input n room, input.length = n*channels →
    (process s input n room).samples.length = (process s input n room).produced*channels
  limit : ∀ s input n room, input.length = n*channels →
    (process s input n room).consumed = n ∨ (process s input n room).produced = room

/-- A buffer that `read` has allocated; `serial` counts the calls of `read` and is
that of the call which filled the buffer last. -/
structure Block (α : Type) where
  address : ℕ
  data : List α
  serial : ℕ

/-- The members of the class, the number of buffers allocated, and the history: the
blocks given to `read`, the input speex has consumed and the output it has produced. -/
structure State {α : Type} {inputChannels : ℕ} (speex : Speex α inputChannels) where
  queue : List (Block α)
  doneQueue : List (Block α)
  offset : ℕ
  spxResampler : speex.State
  allocated : ℕ
  given : List (List α)
  consumed : List α
  produced : List α

variable {α : Type} {inputChannels : ℕ} (speex : Speex α inputChannels)

def create : State speex where
  queue := []
  doneQueue := []
  offset := 0
  spxResampler := speex.initial
  allocated := 0
  given := []
  consumed := []
  produced := []

variable {speex}

structure Write (speex : Speex α inputChannels) where
  resampler : State speex
  dest : List α
  pos : ℕ
  count : ℕ

section Calls

variable (inputFrameCount : ℕ)

/-- The buffer that `read` copies into, and what is left in `done_queue`. -/
def State.takeBuffer [Zero α] (s : State speex) : Block α × State speex :=
  match s.doneQueue with
  | [] =>
    let fresh := List.replicate (inputFrameCount*inputChannels) 0
    (⟨s.allocated,fresh,s.given.length⟩,{ s with allocated := s.allocated+1 })
  | buff :: rest => ({ buff with serial := s.given.length },{ s with doneQueue := rest })

def State.read [Zero α] (s : State speex) (source : List α) : Program Empty (State speex) := do
  let (buff,s) := s.takeBuffer inputFrameCount
  let block ← Buffer.region source 0 (inputChannels*inputFrameCount)
  let data ← Buffer.store buff.data 0 block
  return { s with queue := s.queue ++ [{ buff with data := data }], given := s.given ++ [block] }

def State.account (s : State speex) (input : List α) (r : Processed α speex.State) : State speex :=
  { s with
    spxResampler := r.state
    offset := s.offset+r.consumed*inputChannels
    consumed := s.consumed ++ input.take (r.consumed*inputChannels)
    produced := s.produced ++ r.samples }

/-- A buffer all of whose samples are consumed moves to `done_queue`. -/
def State.retire (s : State speex) (buff : Block α) (rest : List (Block α)) : State speex :=
  if s.offset = inputFrameCount*inputChannels then
    { s with doneQueue := s.doneQueue ++ [buff], queue := rest, offset := 0 }
  else s

/-- One round of the loop of `write`. The regions handed to speex are checked. -/
def Write.round (maxFrameCount : ℕ) (w : Write speex) : Program Empty (Write speex) :=
  match w.resampler.queue with
  | [] => return w
  | buff :: rest => do
    let s := w.resampler
    let remainingInputFrames := inputFrameCount-s.offset/inputChannels
    let remainingOutputFrames := maxFrameCount-w.count
    let input ← Buffer.region buff.data s.offset (remainingInputFrames*inputChannels)
    let _ ← Buffer.region w.dest w.pos (remainingOutputFrames*inputChannels)
    let r := speex.process s.spxResampler input remainingInputFrames remainingOutputFrames
    let dest ← Buffer.store w.dest w.pos r.samples
    return {
      resampler := (s.account input r).retire inputFrameCount buff rest
      dest := dest
      pos := w.pos+r.produced*inputChannels
      count := w.count+r.produced }

def attenuate [Mul α] (lit : ℚ → α) (dest : List α) (start n : ℕ) : Program Empty (List α) :=
  forLoop n (fun i dest => Buffer.modify dest (start+i) (· * lit 0.94)) dest

def State.write [Mul α] (lit : ℚ → α) (s : State speex) (dest : List α) (pos maxFrameCount : ℕ) :
    Program Empty (Write speex) := do
  let w ← whileLoop (fun w : Write speex => w.count < maxFrameCount ∧ w.resampler.queue.isEmpty = false)
    (Write.round inputFrameCount maxFrameCount) ⟨s,dest,pos,0⟩
  let start := w.pos-w.count*inputChannels
  return { w with dest := ← attenuate lit w.dest start (w.count*inputChannels), pos := start }

end Calls

/-- Twice the sample rate, by giving each frame twice. -/
def twofold (α : Type) (channels : ℕ) : Speex α channels where
  State := Fin 2
  initial := 0
  process p input n room :=
    let produced := min room (2*n-p)
    { consumed := (p+produced)/2
      produced := produced
      samples := (List.range produced).flatMap fun i => Buffer.slice input ((p+i)/2*channels) channels
      state := Fin.ofNat 2 (p+produced) }
  consumed_le p input n room _ := by
    have := p.isLt
    dsimp only
    omega
  produced_le p input n room _ := min_le_left _ _
  length_samples p input n room h := by
    have := p.isLt
    have hslice : ∀ i ∈ List.range (min room (2*n-p)),
        (Buffer.slice input ((p+i)/2*channels) channels).length = channels := by
      intro i hi
      have hi := List.mem_range.mp hi
      refine Buffer.length_slice _ ?_
      rw [h,← Nat.succ_mul]
      exact Nat.mul_le_mul_right _ (by omega)
    rw [List.length_flatMap,List.map_congr_left hslice]
    simp
  limit p input n room _ := by
    have := p.isLt
    dsimp only
    omega

end Resampler
end AudioOutput
