import AudioOutput.ConverterStreams
import AudioOutput.Faults

/-!
# Array bounds of the converter

Every access of the model is checked, so a run without faults is one that stays within
the arrays. What the loops need for that are the sizes of the four arrays and how far
the counts have come at the head of each round; whether a request ends plays no part.
-/

namespace AudioOutput

open Program

namespace Remix

variable {α : Type} [Zero α] [Add α] [Mul α] (lit : ℚ → α)

omit [Add α] [Mul α] in
theorem zeroInterleaved_definite {frames outputChannels : ℕ} {output : List α} {zeroFirst : Bool} :
    Definite (zeroInterleaved frames outputChannels output zeroFirst) := by
  unfold zeroInterleaved
  split_ifs
  · exact Buffer.store_definite
  · exact .pure _

omit [Zero α] in
theorem Kernel.interleaved_definite {frames m n : ℕ} {input output : List α} (K : Kernel) :
    Definite (K.interleaved lit frames m input n output) := by
  cases K with
  | matrix M =>
    unfold Kernel.interleaved applyMixingMatrixInterleaved
    refine .stridedLoop (fun inp out output => ?_) _ _ _ _
    refine Buffer.region_definite.bind fun frame => .forLoop (fun row output => ?_) _ _
    refine .forLoop (fun column output => ?_) _ _
    exact Buffer.load_definite.bind fun _ => Buffer.load_definite.bind fun _ => Buffer.modify_definite
  | mono =>
    unfold Kernel.interleaved upmixMonoInterleaved
    refine .stridedLoop (fun i j output => .forLoop (fun chan output => ?_) _ _) _ _ _ _
    exact Buffer.load_definite.bind fun _ => Buffer.modify_definite
  | unrecognized =>
    unfold Kernel.interleaved mixUnrecognizedInterleaved
    refine .stridedLoop (fun inp out output => .forLoop (fun j output => ?_) _ _) _ _ _ _
    exact Buffer.load_definite.bind fun _ => Buffer.modify_definite

theorem remixAudioInterleaved_definite {frames m n : ℕ} {input output : List α} {zeroFirst : Bool} :
    Definite (remixAudioInterleaved lit frames m input n output zeroFirst) := by
  rw [remixAudioInterleaved_eq]
  exact zeroInterleaved_definite.bind fun _ => (kernel m n).interleaved_definite lit

end Remix

namespace Resampler

variable {α : Type} {inputChannels : ℕ} {speex : Speex α inputChannels} {inputFrameCount : ℕ}

theorem read_definite [Zero α] {s : State speex} {source : List α} : Definite (s.read inputFrameCount source) :=
  Buffer.region_definite.bind fun _ => Buffer.store_definite.bind fun _ => .pure _

theorem round_definite {maxFrameCount : ℕ} {w : Write speex} : Definite (w.round inputFrameCount maxFrameCount) := by
  unfold Write.round
  split
  · exact .pure _
  · refine Buffer.region_definite.bind fun _ => Buffer.region_definite.bind fun _ => ?_
    exact Buffer.store_definite.bind fun _ => .pure _

theorem write_definite [Mul α] {lit : ℚ → α} {s : State speex} {dest : List α} {pos maxFrameCount : ℕ} :
    Definite (s.write inputFrameCount lit dest pos maxFrameCount) := by
  refine (Definite.whileLoop (fun _ => round_definite) _).bind fun w => ?_
  exact (Definite.forLoop (fun _ _ => Buffer.modify_definite) _ _).bind fun _ => .pure _

end Resampler

namespace SampleFormatConverter

open BlockLength

variable {α : Type} {cfg : Config α}

theorem State.invoke_faultless {s : State cfg} {buffer : List α} (hlen : buffer.length = cfg.inputFrames*cfg.inputChannels) :
    Faultless (s.invoke buffer) := by
  have hblock := cfg.length_callback s.pulled
  exact (Faultless.emit _).after fun _ => Buffer.store_faultless (by omega)

section Refill

variable [Zero α] [Add α] [Mul α] {lit : ℚ → α}

omit [Add α] [Mul α] in
theorem State.feed_faultless {s : State cfg} {r : Resampler.State cfg.speex} (hne : cfg.inputSr ≠ cfg.outputSr)
    (hr : s.resampler = some r) (h : Fed cfg s.pulled r) (hq : r.queue = [])
    (hlen : s.inputBuffer.length = cfg.inputFrames*cfg.inputChannels) : Faultless (s.feed r) := by
  have hevent : Event.Sound (.callback s) := by
    simp only [Event.Sound,Event.Timely,if_neg hne]
    exact ⟨r,hr,hq,h.consumed hq⟩
  have hinvoke : Meets False (s.invoke s.inputBuffer) Event.Sound (· = cfg.callback s.pulled) :=
    State.invoke_meets hevent hlen
  refine (State.invoke_faultless hlen).bind hinvoke.1 fun block hblock => ?_
  subst hblock
  have hread := (h.read hq).faultless Resampler.read_definite
  exact hread.silent.after fun _ => (Faultless.emit _).after fun _ => .pure _

omit [Add α] in
theorem Resampled.round_faultless {s : State cfg} {r₀ : Resampler.State cfg.speex} {t : Resampling cfg}
    (h : Resampled lit s r₀ t) (hne : cfg.inputSr ≠ cfg.outputSr) (hgot : t.got < s.outputFrames) :
    Faultless (t.round lit s.outputFrames) := by
  obtain ⟨r,_,hr,_⟩ := h.resampler
  have hwrite := h.write lit hgot hr
  have hfaultless := hwrite.faultless Resampler.write_definite
  rw [Resampling.round,hr]
  refine hfaultless.silent.bind (P := Event.Sound) hwrite.always ?_
  rintro w ⟨hshort,hw⟩
  dsimp only
  split_ifs with hmore
  · obtain ⟨r',_,hr',hfed,_⟩ := hw.resampler
    obtain rfl : w.resampler = r' := Option.some.inj hr'
    exact (State.feed_faultless hne rfl hfed (hshort hmore) hw.inputBuffer).after fun _ => .pure _
  · exact .pure _

theorem State.mix_faultless {s : State cfg} {frames : ℕ} {samples : List α}
    (hne : cfg.inputChannels ≠ cfg.outputChannels) (hsamples : samples.length = frames*cfg.inputChannels)
    (hbuffer : s.outputBuffer.length = frames*cfg.outputChannels) : Faultless (s.mix lit frames samples) := by
  have hmix := Remix.remixAudioInterleaved_returns lit hne cfg.inputChannels_pos cfg.outputChannels_pos hsamples hbuffer
  have hfaultless := (hmix.ends rfl).faultless (Remix.remixAudioInterleaved_definite lit)
  exact hfaultless.silent.after fun _ => .pure _

theorem Valid.refillDirect_faultless {s : State cfg} (hs : Valid lit s) (hused : s.consumedOutputFrames = s.outputFrames)
    (heq : cfg.inputSr = cfg.outputSr) : Faultless (s.refillDirect lit) := by
  have hframes := (hs.direct heq).1
  have hevent := hs.pull hused heq
  unfold State.refillDirect
  split_ifs with hch
  · have hbuffer : s.outputBuffer.length = cfg.inputFrames*cfg.inputChannels := by
      rw [hs.outputBuffer,hframes,hch]
    exact (State.invoke_faultless hbuffer).after fun _ => .pure _
  · have hinvoke : Meets False (s.invoke s.inputBuffer) Event.Sound (· = cfg.callback s.pulled) :=
      State.invoke_meets hevent hs.inputBuffer
    refine (State.invoke_faultless hs.inputBuffer).bind hinvoke.1 fun block hblock => ?_
    subst hblock
    exact State.mix_faultless hch (cfg.length_callback _) (hframes ▸ hs.outputBuffer)

theorem Valid.refillResampled_faultless {s : State cfg} (hs : Valid lit s) (hne : cfg.inputSr ≠ cfg.outputSr) :
    Faultless (s.refillResampled lit) := by
  obtain ⟨r₀,_,hstart⟩ := hs.resampled hne
  have hstep (t : Resampling cfg) (ht : Resampled lit s r₀ t) (hgot : t.got < s.outputFrames) :
      Always (t.round lit s.outputFrames) Event.Sound (Resampled lit s r₀) := (ht.round lit hne hgot).1.imp fun _ h => h.1
  have hloop := Faultless.whileLoop (Resampled lit s r₀) hstart hstep fun t ht hgot => ht.round_faultless hne hgot
  refine hloop.bind (.whileLoop (Resampled lit s r₀) hstart hstep) ?_
  rintro t ⟨ht,-⟩
  have hbuffer : t.converter.outputBuffer.length = s.outputFrames*cfg.outputChannels := by
    rw [ht.outputBuffer,hs.outputBuffer]
  dsimp only
  split_ifs with hch
  · have hworkspace : t.converter.outputFrames*cfg.outputChannels = t.converter.resamplerWorkspace.length := by
      rw [ht.outputFrames,ht.workspace,hch]
    have hregion : 0+t.converter.outputFrames*cfg.outputChannels ≤ t.converter.resamplerWorkspace.length := by omega
    have hsamples : Meets False (Buffer.region t.converter.resamplerWorkspace 0
        (t.converter.outputFrames*cfg.outputChannels)) (fun e : Event cfg => e.Sound) _ := Buffer.region_meets hregion
    refine (Buffer.region_faultless hregion).bind hsamples.1 fun samples hslice => ?_
    have hlen : samples.length = t.converter.outputFrames*cfg.outputChannels := by
      rw [hslice,Buffer.length_slice _ hregion]
    rw [ht.outputFrames] at hlen
    exact (Buffer.store_faultless (by omega)).after fun _ => .pure _
  · rw [ht.outputFrames]
    exact State.mix_faultless hch ht.workspace hbuffer

theorem Valid.refill_faultless {s : State cfg} (hs : Valid lit s) (hused : s.consumedOutputFrames = s.outputFrames) :
    Faultless (s.refillOutputBuffer lit) := by
  refine Faultless.after ?_ fun _ => .pure _
  split_ifs with heq
  · exact hs.refillDirect_faultless hused heq
  · exact hs.refillResampled_faultless heq

end Refill

section Write

variable [Zero α] [Add α] [Mul α] {lit : ℚ → α}

theorem Writes.copy_faultless {s : State cfg} {frames : ℕ} {buffer : List α} {t : Writing cfg}
    (h : Writes lit s frames buffer t) (hroom : frames*cfg.outputChannels ≤ buffer.length) {n : ℕ}
    (hframes : t.written+n ≤ frames) (hleft : t.converter.consumedOutputFrames+n ≤ t.converter.outputFrames) :
    Faultless (t.copy n) := by
  have hregion : t.converter.consumedOutputFrames*cfg.outputChannels+n*cfg.outputChannels ≤
      t.converter.outputBuffer.length := by
    rw [h.valid.outputBuffer,← Nat.add_mul]
    exact Nat.mul_le_mul_right _ hleft
  have hsamples : Meets False (Buffer.region t.converter.outputBuffer
      (t.converter.consumedOutputFrames*cfg.outputChannels) (n*cfg.outputChannels)) (fun e : Event cfg => e.Sound) _ :=
    Buffer.region_meets hregion
  refine (Buffer.region_faultless hregion).bind hsamples.1 fun samples hslice => ?_
  have hstore : t.written*cfg.outputChannels+samples.length ≤ t.buffer.length := by
    rw [hslice,Buffer.length_slice _ hregion,← Nat.add_mul,h.length]
    exact (Nat.mul_le_mul_right _ hframes).trans hroom
  exact (Buffer.store_faultless hstore).after fun _ => .pure _

theorem Writes.round_faultless {s : State cfg} {frames : ℕ} {buffer : List α} {t : Writing cfg}
    (h : Writes lit s frames buffer t) (hroom : frames*cfg.outputChannels ≤ buffer.length) (hmore : t.written ≠ frames) :
    Faultless (t.round lit frames) := by
  have hwritten := h.written
  have hconsumed := h.valid.consumed
  unfold Writing.round
  dsimp only
  split_ifs with hnone
  · have hused : t.converter.consumedOutputFrames = t.converter.outputFrames := by omega
    exact (h.valid.refill_faultless hused).after fun _ => .pure _
  · exact h.copy_faultless hroom (by omega) (by omega)

theorem Ready.starts {s : State cfg} (hs : Ready lit s) (frames : ℕ) (buffer : List α) :
    Writes lit s frames buffer ⟨s,buffer,0⟩ := ⟨hs.valid,Or.inl hs.started,Nat.zero_le _,rfl,by simp⟩

theorem Ready.write_faultless {s : State cfg} (hs : Ready lit s) {frames : ℕ} {buffer : List α}
    (hroom : frames*cfg.outputChannels ≤ buffer.length) : Faultless (s.write lit frames buffer) :=
  .whileLoop (Writes lit s frames buffer) (hs.starts frames buffer)
    (fun _ ht hmore => (ht.round hroom hmore).1.imp fun _ h => h.1) fun _ ht hmore => ht.round_faultless hroom hmore

theorem Ready.requests_faultless {s : State cfg} (hs : Ready lit s) {rs : List (Request α)}
    (hrs : ∀ r ∈ rs, r.Fits cfg) : Faultless (s.requests lit rs) := by
  induction rs generalizing s with
  | nil => exact .pure _
  | cons r rs ih =>
    have hroom : r.frames*cfg.outputChannels ≤ r.buffer.length := hrs r List.mem_cons_self
    refine (hs.write_faultless hroom).bind (hs.write hroom).1 fun t ⟨ht,_⟩ => ?_
    exact (ih ht fun q hq => hrs q (List.mem_cons_of_mem _ hq)).after fun _ => .pure _

end Write

section Construct

variable [Zero α]

theorem newArray_faultless {ε : Type} {m n : ℕ} (h : (m*n : ℤ) < 2^31) :
    Faultless (newArray (wrap32 (m*n)) : Program ε (List α)) := by
  have hpos : (0 : ℤ) ≤ m*n := by positivity
  rw [wrap32_of_lt hpos h]
  exact .ofExcept (if_pos hpos)

theorem construct_faultless (h : cfg.NoOverflow) : Faultless (construct cfg) := by
  obtain ⟨n,hn,-,-⟩ := h.blockFrames
  have hworkspace := h.workspace
  have hsize := h.outputBuffer
  rw [hn] at hworkspace hsize
  have hresampler : Faultless (newResampler cfg) := by
    unfold newResampler
    rw [hn]
    split_ifs with hne
    · exact (newArray_faultless (hworkspace hne)).after fun _ => .pure _
    · exact .pure _
  refine hresampler.after fun _ => (newArray_faultless h.inputBuffer).after fun _ => ?_
  rw [hn]
  exact (newArray_faultless hsize).after fun _ => .pure _

theorem construct_frames : Always (construct cfg) (fun _ => True) fun s => s.outputFrames = cfg.blockFrames.toNat :=
  (Always.of_true _).bind fun _ _ => (Always.of_true _).bind fun _ _ => (Always.of_true _).bind fun _ _ => .pure rfl

end Construct

section Bounds

variable [Zero α] [Add α] [Mul α] (lit : ℚ → α)

/-- The converter between two calls, as the constructor or a request leaves it. -/
inductive Served : State cfg → Prop
  | constructed {s : State cfg} (h : Returns (construct cfg) s) : Served s
  | written {s : State cfg} {t : Writing cfg} (hs : Served s) {r : Request α} (hr : r.Fits cfg)
      (h : Returns (s.write lit r.frames r.buffer) t) : Served t.converter

/-- The arrays have the sizes that the constructor has allocated, and the part of the output
buffer that has been handed out is a part of it. -/
structure Sized (s : State cfg) : Prop where
  outputFrames : s.outputFrames = cfg.blockFrames.toNat
  consumed : s.consumedOutputFrames ≤ s.outputFrames
  inputBuffer : s.inputBuffer.length = cfg.inputFrames*cfg.inputChannels
  outputBuffer : s.outputBuffer.length = cfg.blockFrames.toNat*cfg.outputChannels
  workspace : cfg.inputSr ≠ cfg.outputSr → s.resamplerWorkspace.length = cfg.blockFrames.toNat*cfg.inputChannels

/-- A round of `write`: what is copied lies within `output_buffer` and the caller's buffer of
`size` samples, and the offsets are what the ints of the code hold. -/
structure Writing.InBounds (frames size : ℕ) (t : Writing cfg) : Prop where
  sized : Sized t.converter
  written : t.written ≤ frames
  buffer : t.buffer.length = size
  source : ∀ n ≤ min (frames-t.written) (t.converter.outputFrames-t.converter.consumedOutputFrames),
    t.converter.consumedOutputFrames*cfg.outputChannels+n*cfg.outputChannels ≤ t.converter.outputBuffer.length ∧
      t.written*cfg.outputChannels+n*cfg.outputChannels ≤ size
  offset : wrap32 (t.converter.consumedOutputFrames*cfg.outputChannels : ℕ) =
    (t.converter.consumedOutputFrames*cfg.outputChannels : ℕ)
  destination : frames*cfg.outputChannels < 2^31 →
    wrap32 (t.written*cfg.outputChannels : ℕ) = (t.written*cfg.outputChannels : ℕ)

/-- A round of a refill: the region given to the resampler lies within the workspace. -/
structure Resampling.InBounds (t : Resampling cfg) : Prop where
  sized : Sized t.converter
  got : t.got ≤ t.converter.outputFrames
  region : t.got*cfg.inputChannels+(t.converter.outputFrames-t.got)*cfg.inputChannels ≤
    t.converter.resamplerWorkspace.length
  offset : wrap32 (t.got*cfg.inputChannels : ℕ) = (t.got*cfg.inputChannels : ℕ)

variable {lit}

theorem Valid.sized {s : State cfg} (hs : Valid lit s) (hframes : s.outputFrames = cfg.blockFrames.toNat) : Sized s where
  outputFrames := hframes
  consumed := hs.consumed
  inputBuffer := hs.inputBuffer
  outputBuffer := hframes ▸ hs.outputBuffer
  workspace := hframes ▸ hs.workspace

theorem wrap32_offset {n size channels : ℕ} (hn : n ≤ size) (h : size*channels < 2^31) :
    wrap32 (n*channels : ℕ) = (n*channels : ℕ) := wrap32_natCast ((Nat.mul_le_mul_right _ hn).trans_lt h)

omit [Zero α] [Add α] [Mul α] in
theorem Config.NoOverflow.array {n : ℕ} (hblocks : cfg.blockFrames*n < 2^31) (hcfg : cfg.NoOverflow) :
    cfg.blockFrames.toNat*n < 2^31 := by
  obtain ⟨k,hk,-,-⟩ := hcfg.blockFrames
  rw [hk] at hblocks ⊢
  exact_mod_cast hblocks

theorem Writes.round_frames {s : State cfg} {frames : ℕ} {buffer : List α} {t : Writing cfg}
    (h : Writes lit s frames buffer t) (hmore : t.written ≠ frames) :
    Always (t.round lit frames) (fun _ => True) fun u => u.converter.outputFrames = t.converter.outputFrames := by
  have hwritten := h.written
  have hconsumed := h.valid.consumed
  unfold Writing.round
  dsimp only
  split_ifs with hnone
  · have hused : t.converter.consumedOutputFrames = t.converter.outputFrames := by omega
    have hrefill := (h.valid.refill hused).1.imp_event fun _ _ => trivial
    exact hrefill.bind fun u ⟨_,_,hframes,_⟩ => .pure hframes
  · exact (Always.of_true _).bind fun _ _ => (Always.of_true _).bind fun _ _ => .pure rfl

theorem Writes.visits {s : State cfg} (hs : Ready lit s) {frames : ℕ} {buffer : List α} {t : Writing cfg}
    (hroom : frames*cfg.outputChannels ≤ buffer.length)
    (ht : Visits (fun t : Writing cfg => t.written ≠ frames) (Writing.round lit frames) ⟨s,buffer,0⟩ t) :
    Writes lit s frames buffer t ∧ t.converter.outputFrames = s.outputFrames := by
  refine ht.invariant (fun t => Writes lit s frames buffer t ∧ t.converter.outputFrames = s.outputFrames)
    ⟨hs.starts frames buffer,rfl⟩ ?_
  rintro t u ⟨hwrites,hframes⟩ hmore hround
  exact ⟨((hwrites.round hroom hmore).1.result hround).1,((hwrites.round_frames hmore).result hround).trans hframes⟩

theorem Served.ready (h : cfg.NoOverflow) {s : State cfg} (hs : Served lit s) :
    Ready lit s ∧ s.outputFrames = cfg.blockFrames.toNat := by
  induction hs with
  | constructed hnew => exact ⟨((construct_meets lit h).1.result hnew).1,construct_frames.result hnew⟩
  | written _ hr hwrite ih =>
    obtain ⟨hready,hframes⟩ := ih
    exact ⟨((hready.write hr).1.result hwrite).1,(Writes.visits hready hr (.of_returns hwrite)).2.trans hframes⟩

omit [Add α] in
theorem Resampling.round_consumed (required : ℕ) (t : Resampling cfg) :
    Always (t.round lit required) (fun _ => True) fun u =>
      u.converter.consumedOutputFrames = t.converter.consumedOutputFrames := by
  have hfeed (s : State cfg) (r : Resampler.State cfg.speex) :
      Always (s.feed r) (fun _ => True) fun u => u.consumedOutputFrames = s.consumedOutputFrames :=
    (Always.of_true _).bind fun _ _ => (Always.of_true _).bind fun _ _ => (Always.of_true _).bind fun _ _ => .pure rfl
  unfold Resampling.round
  split
  · exact fun _ => ⟨by simp [Program.ofExcept],fun _ h => by cases h⟩
  · refine (Always.of_true _).bind fun w _ => ?_
    dsimp only
    split_ifs
    · exact (hfeed _ _).bind fun u hu => .pure hu
    · exact .pure rfl

theorem Resampled.visits {s : State cfg} (hs : Valid lit s) (hne : cfg.inputSr ≠ cfg.outputSr) {u : Resampling cfg}
    (hu : Visits (fun u : Resampling cfg => u.got < s.outputFrames) (Resampling.round lit s.outputFrames) ⟨s,0⟩ u) :
    (∃ r₀, Resampled lit s r₀ u) ∧ u.converter.consumedOutputFrames = s.consumedOutputFrames := by
  obtain ⟨r₀,_,hstart⟩ := hs.resampled hne
  have hinv := hu.invariant
    (fun u => Resampled lit s r₀ u ∧ u.converter.consumedOutputFrames = s.consumedOutputFrames) ⟨hstart,rfl⟩ ?_
  · exact ⟨⟨r₀,hinv.1⟩,hinv.2⟩
  · rintro u v ⟨hresampled,hconsumed⟩ hgot hround
    exact ⟨((hresampled.round lit hne hgot).1.result hround).1,
      ((Resampling.round_consumed _ u).result hround).trans hconsumed⟩

theorem Writes.inBounds (h : cfg.NoOverflow) {s : State cfg} {frames : ℕ} {buffer : List α} {t : Writing cfg}
    (ht : Writes lit s frames buffer t) (hframes : t.converter.outputFrames = cfg.blockFrames.toNat)
    (hroom : frames*cfg.outputChannels ≤ buffer.length) : t.InBounds frames buffer.length where
  sized := ht.valid.sized hframes
  written := ht.written
  buffer := ht.length
  source n hn := by
    have hwritten := ht.written
    have hconsumed := ht.valid.consumed
    rw [ht.valid.outputBuffer,← Nat.add_mul,← Nat.add_mul]
    exact ⟨Nat.mul_le_mul_right _ (by omega),(Nat.mul_le_mul_right _ (by omega)).trans hroom⟩
  offset := wrap32_offset (hframes ▸ ht.valid.consumed) (h.array h.outputBuffer)
  destination := wrap32_offset ht.written

omit [Zero α] [Add α] in
theorem Resampled.inBounds (h : cfg.NoOverflow) {s : State cfg} {r₀ : Resampler.State cfg.speex} {u : Resampling cfg}
    (hu : Resampled lit s r₀ u) (hs : Sized s) (hne : cfg.inputSr ≠ cfg.outputSr)
    (hconsumed : u.converter.consumedOutputFrames = s.consumedOutputFrames) : u.InBounds where
  sized := {
    outputFrames := hu.outputFrames.trans hs.outputFrames
    consumed := by rw [hconsumed,hu.outputFrames]; exact hs.consumed
    inputBuffer := hu.inputBuffer
    outputBuffer := by rw [hu.outputBuffer,hs.outputBuffer]
    workspace := fun _ => by rw [hu.workspace,hs.outputFrames] }
  got := hu.outputFrames ▸ hu.got
  region := by
    rw [← Nat.add_mul,Nat.add_sub_cancel' (hu.outputFrames ▸ hu.got),hu.workspace,hu.outputFrames]
  offset := wrap32_offset (hs.outputFrames ▸ hu.got) (h.array (h.workspace hne))

/-- No request, whatever was requested before, makes an access outside an array, whether it
ends or not; between the calls and at the head of every round of `write` and of a refill
the counts lie within the sizes allocated. -/
theorem converter_in_bounds (h : cfg.NoOverflow) :
    (∀ rs : List (Request α), (∀ r ∈ rs, r.Fits cfg) → Faultless (session lit cfg rs)) ∧
    ∀ s, Served lit s → Sized s ∧ ∀ (frames : ℕ) (buffer : List α), frames*cfg.outputChannels ≤ buffer.length →
      Faultless (s.write lit frames buffer) ∧
      ∀ t, Visits (fun t : Writing cfg => t.written ≠ frames) (Writing.round lit frames) ⟨s,buffer,0⟩ t →
        t.InBounds frames buffer.length ∧
        (cfg.inputSr ≠ cfg.outputSr → ∀ u, Visits (fun u : Resampling cfg => u.got < t.converter.outputFrames)
          (Resampling.round lit t.converter.outputFrames) ⟨t.converter,0⟩ u → u.InBounds) := by
  refine ⟨fun rs hrs => ?_,fun s hs => ?_⟩
  · exact (construct_faultless h).bind (construct_meets lit h).1 fun s ⟨hs,_⟩ => hs.requests_faultless hrs
  · obtain ⟨hready,hframes⟩ := hs.ready h
    refine ⟨hready.valid.sized hframes,fun frames buffer hroom => ⟨hready.write_faultless hroom,fun t ht => ?_⟩⟩
    obtain ⟨hwrites,hsame⟩ := Writes.visits hready hroom ht
    have hbounds := hwrites.inBounds h (hsame.trans hframes) hroom
    refine ⟨hbounds,fun hne u hu => ?_⟩
    obtain ⟨⟨r₀,hresampled⟩,hconsumed⟩ := Resampled.visits hwrites.valid hne hu
    exact hresampled.inBounds h hbounds.sized hne hconsumed

/-- From mono at 24 kHz to stereo at 48 kHz: a request for three frames, with room for them. -/
theorem converter_in_bounds_counting :
    Faultless (session (fun q : ℚ => q) (counting 48000 (by decide)) [⟨3,[7,7,7,7,7,7]⟩]) ∧
    ∃ s : State (counting 48000 (by decide)), Served (fun q => q) s ∧ Sized s := by
  have h : _ ∧ ∀ s, Served (fun q : ℚ => q) s → _ := converter_in_bounds counting_noOverflow.2
  have hnew : ∃ s, Returns (construct (counting 48000 (by decide))) s := ⟨_,0,rfl⟩
  obtain ⟨s,hs⟩ := hnew
  have hserved : Served (fun q => q) s := .constructed hs
  exact ⟨h.1 _ (by simp [Request.Fits,counting]),s,hserved,(h.2 s hserved).1⟩

end Bounds

end SampleFormatConverter
end AudioOutput
