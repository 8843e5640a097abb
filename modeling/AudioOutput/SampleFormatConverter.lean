import AudioOutput.BlockLength
import AudioOutput.Remix
import AudioOutput.Resampler

/-!
# The sample format converter

`SampleFormatConverter`: blocks are pulled from the callback when frames are asked
for, and resampled and remixed as the formats require. The fields that are null
unless the sample rates differ stay empty here.
-/

namespace AudioOutput
namespace SampleFormatConverter

open Program BlockLength

/-- The arguments of the constructor, all positive. `callback k` is the block that the
callback stores when it is called for the `k`-th time, and `speex` what
`speex_resampler_init` gives for these channels and sample rates. -/
structure Config (α : Type) where
  inputFrames : ℕ
  inputChannels : ℕ
  inputSr : ℕ
  outputChannels : ℕ
  outputSr : ℕ
  callback : ℕ → List α
  speex : Resampler.Speex α inputChannels
  inputFrames_pos : 0 < inputFrames
  inputChannels_pos : 0 < inputChannels
  inputSr_pos : 0 < inputSr
  outputChannels_pos : 0 < outputChannels
  outputSr_pos : 0 < outputSr
  length_callback : ∀ k, (callback k).length = inputFrames*inputChannels

/-- The members of the class, and the history: the blocks pulled, the refills
completed and the samples handed out. -/
structure State {α : Type} (cfg : Config α) where
  outputFrames : ℕ
  consumedOutputFrames : ℕ
  inputBuffer : List α
  outputBuffer : List α
  resamplerWorkspace : List α
  resampler : Option (Resampler.State cfg.speex)
  pulled : ℕ
  refills : ℕ
  delivered : List α

/-- The callback is about to be invoked, or the resampler has been given a block. -/
inductive Event {α : Type} (cfg : Config α)
  | callback (s : State cfg)
  | read (resampler : Resampler.State cfg.speex)

variable {α : Type} [Zero α] (cfg : Config α)

/-- `new float[n]()`. -/
def newArray {ε : Type} (n : ℤ) : Program ε (List α) :=
  .ofExcept <| if 0 ≤ n then .ok (List.replicate n.toNat 0) else .error .badLength

def Config.blockFrames : ℤ := converterFrames cfg.inputFrames cfg.inputSr cfg.outputSr

/-- The members that only a converter between different sample rates has. -/
def newResampler : Program (Event cfg) (Option (Resampler.State cfg.speex) × List α) :=
  if cfg.inputSr ≠ cfg.outputSr then do
    let resamplerWorkspace ← newArray (wrap32 (cfg.blockFrames*cfg.inputChannels))
    return (some (Resampler.create cfg.speex),resamplerWorkspace)
  else return (none,[])

def construct : Program (Event cfg) (State cfg) := do
  let (resampler,resamplerWorkspace) ← newResampler cfg
  let inputBuffer ← newArray (wrap32 (cfg.inputFrames*cfg.inputChannels))
  let outputBuffer ← newArray (wrap32 (cfg.blockFrames*cfg.outputChannels))
  return {
    -- the length is negative only after an overflow; then the allocation of the output buffer
    -- fails, unless its own product wraps around as well
    outputFrames := cfg.blockFrames.toNat
    consumedOutputFrames := cfg.blockFrames.toNat
    inputBuffer := inputBuffer
    outputBuffer := outputBuffer
    resamplerWorkspace := resamplerWorkspace
    resampler := resampler
    pulled := 0
    refills := 0
    delivered := [] }

variable {cfg}

def State.invoke (s : State cfg) (buffer : List α) : Program (Event cfg) (List α) := do
  emit (.callback s)
  Buffer.store buffer 0 (cfg.callback s.pulled)

def State.feed (s : State cfg) (resampler : Resampler.State cfg.speex) : Program (Event cfg) (State cfg) := do
  let inputBuffer ← s.invoke s.inputBuffer
  let resampler ← silent (resampler.read cfg.inputFrames inputBuffer)
  emit (.read resampler)
  return { s with inputBuffer := inputBuffer, resampler := some resampler, pulled := s.pulled+1 }

variable [Add α] [Mul α] (lit : ℚ → α)

structure Resampling (cfg : Config α) where
  converter : State cfg
  got : ℕ

def Resampling.round (required : ℕ) (t : Resampling cfg) : Program (Event cfg) (Resampling cfg) :=
  match t.converter.resampler with
  | none => .ofExcept (.error .nullPointer)
  | some resampler => do
    let w ← silent (resampler.write cfg.inputFrames lit t.converter.resamplerWorkspace (t.got*cfg.inputChannels)
      (required-t.got))
    let s := { t.converter with resampler := some w.resampler, resamplerWorkspace := w.dest }
    let got := t.got+w.count
    if got < required then return ⟨← s.feed w.resampler,got⟩ else return ⟨s,got⟩

/-- The samples of a refill are remixed into `output_buffer`. -/
def State.mix (s : State cfg) (frames : ℕ) (samples : List α) : Program (Event cfg) (State cfg) := do
  let outputBuffer ← silent (Remix.remixAudioInterleaved lit frames cfg.inputChannels samples cfg.outputChannels
    s.outputBuffer true)
  return { s with outputBuffer := outputBuffer }

/-- The fast path of a refill, without resampling. -/
def State.refillDirect (s : State cfg) : Program (Event cfg) (State cfg) :=
  if cfg.inputChannels = cfg.outputChannels then do
    let outputBuffer ← s.invoke s.outputBuffer
    return { s with outputBuffer := outputBuffer, pulled := s.pulled+1 }
  else do
    let inputBuffer ← s.invoke s.inputBuffer
    State.mix lit { s with inputBuffer := inputBuffer, pulled := s.pulled+1 } cfg.inputFrames inputBuffer

def State.refillResampled (s : State cfg) : Program (Event cfg) (State cfg) := do
  let t ← whileLoop (fun t : Resampling cfg => t.got < s.outputFrames) (Resampling.round lit s.outputFrames) ⟨s,0⟩
  let s := t.converter
  if cfg.inputChannels = cfg.outputChannels then
    let samples ← Buffer.region s.resamplerWorkspace 0 (s.outputFrames*cfg.outputChannels)
    let outputBuffer ← Buffer.store s.outputBuffer 0 samples
    return { s with outputBuffer := outputBuffer }
  else s.mix lit s.outputFrames s.resamplerWorkspace

def State.refillOutputBuffer (s : State cfg) : Program (Event cfg) (State cfg) := do
  let s ← (if cfg.inputSr = cfg.outputSr then s.refillDirect lit else s.refillResampled lit)
  return { s with consumedOutputFrames := 0, refills := s.refills+1 }

structure Writing (cfg : Config α) where
  converter : State cfg
  buffer : List α
  written : ℕ

def Writing.copy (t : Writing cfg) (willWrite : ℕ) : Program (Event cfg) (Writing cfg) := do
  let s := t.converter
  let samples ← Buffer.region s.outputBuffer (s.consumedOutputFrames*cfg.outputChannels) (willWrite*cfg.outputChannels)
  let buffer ← Buffer.store t.buffer (t.written*cfg.outputChannels) samples
  return {
    converter := { s with
      consumedOutputFrames := s.consumedOutputFrames+willWrite
      delivered := s.delivered ++ samples }
    buffer := buffer
    written := t.written+willWrite }

def Writing.round (frames : ℕ) (t : Writing cfg) : Program (Event cfg) (Writing cfg) :=
  let s := t.converter
  let willWrite := min (frames-t.written) (s.outputFrames-s.consumedOutputFrames)
  if willWrite = 0 then do return { t with converter := ← s.refillOutputBuffer lit } else t.copy willWrite

def State.write (s : State cfg) (frames : ℕ) (buffer : List α) : Program (Event cfg) (Writing cfg) :=
  whileLoop (fun t : Writing cfg => t.written ≠ frames) (Writing.round lit frames) ⟨s,buffer,0⟩

structure Request (α : Type) where
  frames : ℕ
  buffer : List α

def State.requests (s : State cfg) : List (Request α) → Program (Event cfg) (State cfg × List α)
  | [] => return (s,[])
  | r :: rs => do
    let t ← s.write lit r.frames r.buffer
    let (s,out) ← t.converter.requests rs
    return (s,t.buffer.take (r.frames*cfg.outputChannels) ++ out)

def session (cfg : Config α) (rs : List (Request α)) : Program (Event cfg) (State cfg × List α) := do
  let s ← construct cfg
  s.requests lit rs

/-- Samples that count from 1, in blocks of two frames, from mono to stereo. -/
def counting (outputSr : ℕ) (h : 0 < outputSr) : Config ℚ where
  inputFrames := 2
  inputChannels := 1
  inputSr := 24000
  outputChannels := 2
  outputSr := outputSr
  callback k := [2*k+1,2*k+2]
  speex := Resampler.twofold ℚ 1
  inputFrames_pos := by decide
  inputChannels_pos := by decide
  inputSr_pos := by decide
  outputChannels_pos := by decide
  outputSr_pos := h
  length_callback _ := rfl

end SampleFormatConverter
end AudioOutput
