import AudioOutput.SpeexStreams
import AudioOutput.StaticResampler
import AudioOutput.StreamFidelity

/-!
# What the worker plays

`OutputWorkerThread` with the `SampleFormatConverter` that is a member of it, and the
resampler in that. Whatever the threads do, the calls of `write` hand out one stream:
the blocks of the callback, filtered to the other sample rate and remixed.
-/

namespace AudioOutput
namespace SampleFormatConverter

open Program Remix BlockLength

variable {α : Type} [Zero α] [Add α] [Mul α] (lit : ℚ → α) {cfg : Config α}

def silentBuffer (cfg : Config α) (frames : ℕ) : List α := List.replicate (frames*cfg.outputChannels) 0

variable {lit}

theorem Ready.write_silentBuffer (hkeeps : cfg.KeepsUp) {s : State cfg} (hs : Ready lit s) (frames : ℕ) :
    ∃ t : Writing cfg, Returns (s.write lit frames (silentBuffer cfg frames)) t ∧ Ready lit t.converter ∧
      t.buffer.length = frames*cfg.outputChannels ∧ t.converter.delivered = s.delivered ++ t.buffer := by
  have hroom : frames*cfg.outputChannels ≤ (silentBuffer cfg frames).length := by simp [silentBuffer]
  obtain ⟨t,ht,hready,-,hlen,hdelivered⟩ := (hs.write hroom).2 hkeeps
  rw [silentBuffer,List.length_replicate] at hlen
  rw [List.take_of_length_le hlen.le] at hdelivered
  exact ⟨t,ht,hready,hlen,hdelivered⟩

variable (lit) (h : cfg.NoOverflow) (hkeeps : cfg.KeepsUp)

/-- The converter with its invariant, each call being the run of `write` on a cleared buffer. -/
noncomputable def workerConverter : OutputWorkerThread.Converter α cfg.outputChannels where
  State := {s : State cfg // Ready lit s}
  initial := ⟨((construct_meets lit h).2 hkeeps).choose,((construct_meets lit h).2 hkeeps).choose_spec.2.1⟩
  write c frames :=
    let hcall := c.2.write_silentBuffer hkeeps frames
    (hcall.choose.buffer,⟨hcall.choose.converter,hcall.choose_spec.2.1⟩)
  length_write c frames := (c.2.write_silentBuffer hkeeps frames).choose_spec.2.2.1

/-- What the constructor of the worker makes of its arguments. -/
noncomputable def workerConfig (mixahead : ℕ) (unspecified : ℕ → ℕ → α) : OutputWorkerThread.Config α where
  mixahead := mixahead
  destinationFrames := (workerFrames cfg.inputFrames cfg.inputSr cfg.outputSr).toNat
  destinationChannels := cfg.outputChannels
  converter := workerConverter lit h hkeeps
  unspecified := unspecified

variable {lit}

theorem workerConverter_initial : (workerConverter lit h hkeeps).initial.1.delivered = [] :=
  ((construct_meets lit h).2 hkeeps).choose_spec.2.2

theorem workerConverter_write (c : (workerConverter lit h hkeeps).State) (frames : ℕ) :
    ((workerConverter lit h hkeeps).write c frames).2.1.delivered =
      c.1.delivered ++ ((workerConverter lit h hkeeps).write c frames).1 :=
  (c.2.write_silentBuffer hkeeps frames).choose_spec.2.2.2

section Stream

variable {mixahead : ℕ} {unspecified : ℕ → ℕ → α}

theorem delivered_converterAfter (n : ℕ) :
    (OutputWorkerThread.converterAfter (workerConfig lit h hkeeps mixahead unspecified) n).1.delivered =
      (List.range n).flatMap (OutputWorkerThread.block (workerConfig lit h hkeeps mixahead unspecified)) := by
  induction n with
  | zero => exact workerConverter_initial h hkeeps
  | succ n ih =>
    rw [List.range_succ,List.flatMap_append,List.flatMap_singleton,← ih]
    exact workerConverter_write h hkeeps _ _

theorem Ready.delivered_eq_take {s : State cfg} (hs : Ready lit s) {resampled : Stream' α → Stream' α}
    (hspeex : cfg.inputSr ≠ cfg.outputSr → cfg.speex.Streams cfg.inputSr cfg.outputSr resampled) :
    s.delivered = (mixedStream lit cfg.inputChannels cfg.outputChannels (cfg.stream lit resampled)).take s.delivered.length := by
  have hsource := hs.valid.source_eq_take lit hspeex
  rw [hs.valid.source] at hsource
  have hall := take_mixedStream lit cfg.inputChannels_pos cfg.outputChannels_pos (cfg.stream lit resampled)
    (s.refills*s.outputFrames)
  rw [← hsource,hs.valid.flow] at hall
  exact BlockStream.eq_take_of_prefix ⟨_,hall.symm⟩

theorem workerConfig_stream {resampled : Stream' α → Stream' α}
    (hspeex : cfg.inputSr ≠ cfg.outputSr → cfg.speex.Streams cfg.inputSr cfg.outputSr resampled)
    (hframes : 1 ≤ (workerConfig lit h hkeeps mixahead unspecified).destinationFrames) :
    OutputWorkerThread.stream (workerConfig lit h hkeeps mixahead unspecified) =
      mixedStream lit cfg.inputChannels cfg.outputChannels (cfg.stream lit resampled) := by
  set w := workerConfig lit h hkeeps mixahead unspecified with hw
  have hsize : 0 < w.bufferSize := Nat.mul_pos cfg.outputChannels_pos hframes
  refine Stream'.take_theorem _ _ fun n => ?_
  have hblocks := BlockStream.take_concat (OutputWorkerThread.block w) hsize OutputWorkerThread.length_block n
  have hdelivered := (OutputWorkerThread.converterAfter w n).2.delivered_eq_take hspeex
  rw [delivered_converterAfter,← hw,← hblocks,Stream'.length_take] at hdelivered
  have hle : n ≤ n*w.bufferSize := Nat.le_mul_of_pos_right _ hsize
  calc (OutputWorkerThread.stream w).take n
    _ = ((OutputWorkerThread.stream w).take (n*w.bufferSize)).take n := by rw [Stream'.take_take,Nat.min_eq_right hle]
    _ = _ := by rw [OutputWorkerThread.stream,hdelivered,Stream'.take_take,Nat.min_eq_right hle]

end Stream

/-- `speex_resampler_init` has been given the two rates of the converter. -/
structure Config.Filters (cfg : Config α) (f : SpeexResampler.Filter α cfg.inputChannels) : Prop where
  speex : cfg.speex = SpeexResampler.speex f
  ratio : Returns (StaticResampler.setRateFrac cfg.inputSr cfg.outputSr) ⟨f.numRate,f.denRate⟩

variable {f : SpeexResampler.Filter α cfg.inputChannels}

omit [Add α] [Mul α] in
theorem Config.Filters.streams (hf : cfg.Filters f) :
    cfg.speex.Streams cfg.inputSr cfg.outputSr (SpeexResampler.filtered f) := by
  have hrates := hf.ratio.unique (StaticResampler.setRateFrac_returns cfg.inputSr_pos cfg.outputSr_pos)
  rw [StaticResampler.Ratio.mk.injEq] at hrates
  rw [hf.speex]
  refine SpeexResampler.speex_streams cfg.inputChannels_pos ?_
  rw [hrates.1,hrates.2,Nat.div_mul_right_comm (Nat.gcd_dvd_left _ _),Nat.div_mul_right_comm (Nat.gcd_dvd_right _ _),
    Nat.mul_comm]

omit [Add α] [Mul α] in
theorem Config.Filters.keepsUp (hf : cfg.Filters f) : cfg.KeepsUp := Config.Ahead.keepsUp fun _ => hf.streams.ahead

end SampleFormatConverter

namespace OutputWorkerThread

open SampleFormatConverter

theorem Reachable.delivered_prefix {α : Type*} [Zero α] {cfg : Config α} {s : State cfg} (h : Reachable s)
    (hdrain : s.owner.draining = false) (hsize : 0 < cfg.bufferSize) :
    delivered s <+: (stream cfg).take (s.produced.length*cfg.bufferSize) :=
  ⟨_,((h.fidelity.flatten_produced hsize).symm.trans (h.fidelity.pipeline hdrain)).symm⟩

variable {α : Type} [Zero α] [Add α] [Mul α] (lit : ℚ → α) {cfg : SampleFormatConverter.Config α}
  {f : SpeexResampler.Filter α cfg.inputChannels} (hf : cfg.Filters f) (h : cfg.NoOverflow)

/-- Whatever the schedule of the threads and the sizes of the calls of `write`, the
frames they hand out are the first of one stream: the callback's blocks, filtered to
the rate of the device if that is another one, and remixed to its channels. -/
theorem worker_plays {mixahead : ℕ} {unspecified : ℕ → ℕ → α}
    {s : State (workerConfig lit h hf.keepsUp mixahead unspecified)} (hs : Reachable s)
    (hdrain : s.owner.draining = false) (hframes : 1 ≤ (workerConfig lit h hf.keepsUp mixahead unspecified).destinationFrames) :
    let played := Remix.mixedStream lit cfg.inputChannels cfg.outputChannels (cfg.stream lit (SpeexResampler.filtered f))
    framesReturned s = played.take (cfg.outputChannels*(s.returns.map WriteReturn.written).sum) ∧
      delivered s = played.take (delivered s).length := by
  have hsize : 0 < (workerConfig lit h hf.keepsUp mixahead unspecified).bufferSize :=
    Nat.mul_pos cfg.outputChannels_pos hframes
  have hprefix := hs.delivered_prefix hdrain hsize
  rw [workerConfig_stream h hf.keepsUp (fun _ => hf.streams) hframes] at hprefix
  have hreturned : framesReturned s <+: delivered s := List.prefix_append _ _
  have hlen : (framesReturned s).length = cfg.outputChannels*(s.returns.map WriteReturn.written).sum :=
    hs.fidelity.length_framesReturned
  rw [← hlen]
  exact ⟨BlockStream.eq_take_of_prefix (hreturned.trans hprefix),BlockStream.eq_take_of_prefix hprefix⟩

def countingUp : SampleFormatConverter.Config ℚ where
  inputFrames := 2
  inputChannels := 1
  inputSr := 16000
  outputChannels := 2
  outputSr := 32000
  callback k := [2*k,2*k+1]
  speex := SpeexResampler.speex (SpeexResampler.nearest 1 2 Nat.one_pos Nat.two_pos)
  inputFrames_pos := Nat.two_pos
  inputChannels_pos := Nat.one_pos
  inputSr_pos := by decide
  outputChannels_pos := Nat.two_pos
  outputSr_pos := by decide
  length_callback _ := rfl

theorem countingUp_filters : countingUp.Filters (SpeexResampler.nearest 1 2 Nat.one_pos Nat.two_pos) where
  speex := rfl
  ratio := StaticResampler.setRateFrac_returns (by decide) (by decide)

theorem countingUp_noOverflow : countingUp.NoOverflow := by
  refine ⟨?_,?_,?_,?_⟩ <;> decide

def playOne : List (Action ℚ) :=
  List.replicate 5 .owner ++ List.replicate 7 .worker ++ .write 1 [1,1] :: List.replicate 6 .io

theorem worker_plays_one : ∃ s : State (workerConfig id countingUp_noOverflow countingUp_filters.keepsUp 1 fun _ _ => 0),
    Reachable s ∧ s.returns.map WriteReturn.written = [1] ∧
      framesReturned s = (Remix.mixedStream id 1 2 (countingUp.stream id
        (SpeexResampler.filtered (SpeexResampler.nearest 1 2 Nat.one_pos Nat.two_pos)))).take 2 := by
  have hrun : (Transition.run step (initial (workerConfig id countingUp_noOverflow countingUp_filters.keepsUp 1
    fun _ _ => 0)) playOne).isSome := rfl
  have hreach := reachable_of_run (Option.some_get hrun).symm
  have hframes : 1 ≤ (workerConfig id countingUp_noOverflow countingUp_filters.keepsUp 1 fun _ _ => 0).destinationFrames := by
    decide
  exact ⟨_,hreach,rfl,(worker_plays id countingUp_filters countingUp_noOverflow hreach rfl hframes).1⟩

end OutputWorkerThread
end AudioOutput
