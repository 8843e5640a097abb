import AudioOutput.RemixStream
import AudioOutput.ResamplerStreams
import AudioOutput.SampleFormatConverter

/-!
# Refills

The source frames that the refills so far are made of, remixed, are the samples
handed out and those still in the output buffer. A refill happens only once the
output buffer is used up, and a block is pulled only once speex has no input left.
-/

namespace AudioOutput
namespace SampleFormatConverter

open Program Remix

variable {α : Type} {cfg : Config α}

structure Fed (cfg : Config α) (pulled : ℕ) (r : Resampler.State cfg.speex) : Prop where
  valid : Resampler.Valid cfg.inputFrames r
  given : r.given = (List.range pulled).map cfg.callback
  queue : r.queue.length ≤ 1
  allocated : r.allocated ≤ 1

theorem Fed.consumed {pulled : ℕ} {r : Resampler.State cfg.speex} (h : Fed cfg pulled r) (hq : r.queue = []) :
    r.consumed = (List.range pulled).flatMap cfg.callback := by
  rw [h.valid.consumed_of_queue_nil hq,h.given,List.flatMap_def]

theorem length_flatMap_callback (cfg : Config α) (n : ℕ) :
    ((List.range n).flatMap cfg.callback).length = n*(cfg.inputFrames*cfg.inputChannels) := by
  rw [List.length_flatMap,List.map_congr_left fun k _ => cfg.length_callback k]
  simp

/-- A block is pulled late enough: every frame of the blocks before it has been used. -/
def Event.Timely : Event cfg → Prop
  | .callback s =>
    if cfg.inputSr = cfg.outputSr then
      s.consumedOutputFrames = s.outputFrames ∧
        s.delivered.length = s.pulled*(cfg.inputFrames*cfg.outputChannels)
    else ∃ r, s.resampler = some r ∧ r.queue = [] ∧ r.consumed = (List.range s.pulled).flatMap cfg.callback
  | .read r => r.queue.length ≤ 1 ∧ r.allocated ≤ 1

/-- The same, with the resampler as a block leaves it. -/
def Event.Sound : Event cfg → Prop
  | .callback s => Event.Timely (.callback s)
  | .read r => ∃ pulled, Fed cfg pulled r

theorem Event.Sound.timely : ∀ {e : Event cfg}, e.Sound → e.Timely
  | .callback _, h => h
  | .read _, ⟨_,hfed⟩ => ⟨hfed.queue,hfed.allocated⟩

/-- Speex has given back at least what the ratio of the rates says for the input consumed. -/
def Config.Ahead (cfg : Config α) : Prop :=
  cfg.inputSr ≠ cfg.outputSr → ∀ {input : Stream' α} {s : cfg.speex.State} {m : ℕ} {ys : List α},
    cfg.speex.Reached input s m ys → m*cfg.outputSr ≤ ys.length*cfg.inputSr

/-- The same up to the frame that it has only begun. -/
def Config.KeepsUp (cfg : Config α) : Prop :=
  cfg.inputSr ≠ cfg.outputSr → ∀ {input : Stream' α} {s : cfg.speex.State} {n : ℕ} {ys : List α},
    cfg.speex.Reached input s (n*cfg.inputChannels) ys → n*cfg.outputSr/cfg.inputSr*cfg.inputChannels ≤ ys.length

theorem Config.Ahead.keepsUp (h : cfg.Ahead) : cfg.KeepsUp := by
  intro hne input s n ys hreached
  obtain ⟨k,hk⟩ := hreached.length
  have hahead := h hne hreached
  have hframes : n*cfg.outputSr*cfg.inputChannels ≤ k*cfg.inputSr*cfg.inputChannels := by
    calc n*cfg.outputSr*cfg.inputChannels = n*cfg.inputChannels*cfg.outputSr := by ring
      _ ≤ ys.length*cfg.inputSr := hahead
      _ = k*cfg.inputSr*cfg.inputChannels := by rw [hk]; ring
  rw [hk]
  exact Nat.mul_le_mul_right _ (Nat.div_le_of_le_mul
    ((Nat.le_of_mul_le_mul_right hframes cfg.inputChannels_pos).trans_eq (Nat.mul_comm _ _)))

section Feed

variable [Zero α]

theorem Fed.read {pulled : ℕ} {r : Resampler.State cfg.speex} (h : Fed cfg pulled r) (hq : r.queue = []) :
    Ends (r.read cfg.inputFrames (cfg.callback pulled)) fun r' => Fed cfg (pulled+1) r' ∧ r'.produced = r.produced := by
  have hlen := cfg.length_callback pulled
  refine (h.valid.read hlen.ge).imp ?_
  rintro r' ⟨hvalid,hgiven,_,hproduced,_,b,hqueue,_,hallocated⟩
  have hcount : r.doneQueue.length = r.allocated := by
    have hperm := h.valid.addresses.length_eq
    rwa [hq,List.nil_append,List.length_map,List.length_range] at hperm
  refine ⟨⟨hvalid,?_,?_,?_⟩,hproduced⟩
  · rw [hgiven,h.given,← hlen,List.take_length,List.range_succ,List.map_append]
    rfl
  · rw [hqueue,hq]
    exact le_rfl
  · rcases hallocated with ⟨hdone,_,hnew⟩ | ⟨hsame,_⟩
    · rw [hdone] at hcount
      exact (hnew.trans (by rw [← hcount]; rfl)).le
    · exact hsame ▸ h.allocated

omit [Zero α] in
theorem State.invoke_meets {total : Prop} {s : State cfg} {buffer : List α} (hevent : Event.Sound (.callback s))
    (hlen : buffer.length = cfg.inputFrames*cfg.inputChannels) :
    Meets total (s.invoke buffer) Event.Sound (· = cfg.callback s.pulled) := by
  have hblock := cfg.length_callback s.pulled
  have hroom : 0+(cfg.callback s.pulled).length ≤ buffer.length := by omega
  refine (Meets.emit hevent).bind fun _ _ => (Buffer.store_meets hroom).imp fun b hb => ?_
  rw [hb,Buffer.splice_all _ (hblock.trans hlen.symm)]

theorem State.feed_meets {total : Prop} {s : State cfg} {r : Resampler.State cfg.speex} (hne : cfg.inputSr ≠ cfg.outputSr)
    (hr : s.resampler = some r) (h : Fed cfg s.pulled r) (hq : r.queue = [])
    (hlen : s.inputBuffer.length = cfg.inputFrames*cfg.inputChannels) :
    Meets total (s.feed r) Event.Sound fun t => ∃ r', Fed cfg (s.pulled+1) r' ∧ r'.produced = r.produced ∧
      t = { s with inputBuffer := cfg.callback s.pulled, resampler := some r', pulled := s.pulled+1 } := by
  have hevent : Event.Sound (.callback s) := by
    simp only [Event.Sound,Event.Timely,if_neg hne]
    exact ⟨r,hr,hq,h.consumed hq⟩
  refine (State.invoke_meets hevent hlen).bind fun block hblock => ?_
  subst hblock
  refine (h.read hq).meets.bind fun r' ⟨hfed,hproduced⟩ => ?_
  exact (Meets.emit ⟨_,hfed⟩).bind fun _ _ => .pure ⟨r',hfed,hproduced,rfl⟩

end Feed

section Resample

variable [Zero α] [Mul α] (lit : ℚ → α)

structure Resampled (s : State cfg) (r₀ : Resampler.State cfg.speex) (t : Resampling cfg) : Prop where
  outputFrames : t.converter.outputFrames = s.outputFrames
  outputBuffer : t.converter.outputBuffer = s.outputBuffer
  refills : t.converter.refills = s.refills
  delivered : t.converter.delivered = s.delivered
  inputBuffer : t.converter.inputBuffer.length = cfg.inputFrames*cfg.inputChannels
  workspace : t.converter.resamplerWorkspace.length = s.outputFrames*cfg.inputChannels
  got : t.got ≤ s.outputFrames
  resampler : ∃ r ys, t.converter.resampler = some r ∧ Fed cfg t.converter.pulled r ∧ r.produced = r₀.produced ++ ys ∧
    ys.length = t.got*cfg.inputChannels ∧
    t.converter.resamplerWorkspace.take (t.got*cfg.inputChannels) = ys.map (· * lit 0.94)

/-- How much input may still be pulled, and the frames still to be got: speex cannot
stay behind what it has consumed. -/
def Resampling.rank (s : State cfg) (r₀ : Resampler.State cfg.speex) (t : Resampling cfg) : ℕ :=
  ((r₀.produced.length+s.outputFrames*cfg.inputChannels)*cfg.inputSr-
    t.converter.pulled*(cfg.inputFrames*cfg.inputChannels)*cfg.outputSr)+(s.outputFrames-t.got)

omit [Mul α] in
/-- After a short write by speex, the input pulled so far is less than what the rest needs. -/
theorem Fed.pulled_lt {pulled : ℕ} {r : Resampler.State cfg.speex} (h : Fed cfg pulled r) (hkeeps : cfg.KeepsUp)
    (hne : cfg.inputSr ≠ cfg.outputSr) (hq : r.queue = []) {frames : ℕ}
    (hframes : r.produced.length < frames*cfg.inputChannels) :
    pulled*(cfg.inputFrames*cfg.inputChannels)*cfg.outputSr < frames*cfg.inputChannels*cfg.inputSr := by
  have hreached := h.valid.reached (Stream'.const 0)
  rw [h.consumed hq,length_flatMap_callback,← Nat.mul_assoc] at hreached
  have hquotient := Nat.lt_of_mul_lt_mul_right ((hkeeps hne hreached).trans_lt hframes)
  have hneed := (Nat.div_lt_iff_lt_mul cfg.inputSr_pos).mp hquotient
  calc pulled*(cfg.inputFrames*cfg.inputChannels)*cfg.outputSr =
        pulled*cfg.inputFrames*cfg.outputSr*cfg.inputChannels := by ring
    _ < frames*cfg.inputSr*cfg.inputChannels := Nat.mul_lt_mul_of_pos_right hneed cfg.inputChannels_pos
    _ = frames*cfg.inputChannels*cfg.inputSr := by ring

omit [Zero α] in
/-- What a call of the resampler's `write` adds to the workspace. -/
theorem Resampled.write {s : State cfg} {r₀ : Resampler.State cfg.speex} {t : Resampling cfg} (h : Resampled lit s r₀ t)
    (hgot : t.got < s.outputFrames) {r : Resampler.State cfg.speex} (hr : t.converter.resampler = some r) :
    Ends (r.write cfg.inputFrames lit t.converter.resamplerWorkspace (t.got*cfg.inputChannels) (s.outputFrames-t.got))
      fun w => (t.got+w.count < s.outputFrames → w.resampler.queue = []) ∧
        Resampled lit s r₀ ⟨{ t.converter with resampler := some w.resampler, resamplerWorkspace := w.dest },
          t.got+w.count⟩ := by
  obtain ⟨r',ys,hr',hfed,hproduced,hlen,htake⟩ := h.resampler
  obtain rfl : r' = r := Option.some.inj (hr'.symm.trans hr)
  have hsplit : t.got*cfg.inputChannels+(s.outputFrames-t.got)*cfg.inputChannels = s.outputFrames*cfg.inputChannels := by
    rw [← Nat.add_mul,Nat.add_sub_cancel' hgot.le]
  refine (Resampler.write_ends lit hfed.valid cfg.inputChannels_pos (hsplit.trans h.workspace.symm).le).imp ?_
  rintro w ⟨hvalid,hgiven,hallocated,hqueue,hcount,hshort,zs,hproduced',hlen',hdest⟩
  have hroom : t.got*cfg.inputChannels+(zs.map (· * lit 0.94)).length ≤ t.converter.resamplerWorkspace.length := by
    rw [List.length_map,hlen',h.workspace,← hsplit]
    exact Nat.add_le_add_left (Nat.mul_le_mul_right _ hcount) _
  refine ⟨fun hmore => hshort (by omega),?_⟩
  exact {
    outputFrames := h.outputFrames
    outputBuffer := h.outputBuffer
    refills := h.refills
    delivered := h.delivered
    inputBuffer := h.inputBuffer
    workspace := by
      dsimp only
      rw [hdest,Buffer.length_splice _ hroom,h.workspace]
    got := by
      dsimp only
      omega
    resampler := by
      refine ⟨w.resampler,ys ++ zs,rfl,⟨hvalid,hgiven.trans hfed.given,hqueue.trans hfed.queue,?_⟩,?_,?_,?_⟩
      · exact hallocated ▸ hfed.allocated
      · rw [hproduced',hproduced,List.append_assoc]
      · rw [List.length_append,hlen,hlen',Nat.add_mul]
      · have hstored := Buffer.take_splice t.converter.resamplerWorkspace hroom
        rwa [← hdest,List.length_map,hlen',← Nat.add_mul,htake,← List.map_append] at hstored }

/-- Speex has used up its input, and the next block is pulled. -/
theorem Resampled.feed {s : State cfg} {r₀ : Resampler.State cfg.speex} {t : Resampling cfg} (h : Resampled lit s r₀ t)
    (hne : cfg.inputSr ≠ cfg.outputSr) (hgot : t.got < s.outputFrames) {r : Resampler.State cfg.speex}
    (hr : t.converter.resampler = some r) (hq : r.queue = []) :
    Meets cfg.KeepsUp (t.converter.feed r) Event.Sound fun u =>
      Resampled lit s r₀ ⟨u,t.got⟩ ∧ (cfg.KeepsUp → Resampling.rank s r₀ ⟨u,t.got⟩ < t.rank s r₀) := by
  obtain ⟨r₁,ys,hr₁,hfed,hproduced,hlen,htake⟩ := h.resampler
  obtain rfl : r₁ = r := Option.some.inj (hr₁.symm.trans hr)
  refine (State.feed_meets hne hr hfed hq h.inputBuffer).imp ?_
  rintro u ⟨r',hfed',hsame,rfl⟩
  refine ⟨?_,fun hkeeps => ?_⟩
  · exact {
      outputFrames := h.outputFrames
      outputBuffer := h.outputBuffer
      refills := h.refills
      delivered := h.delivered
      inputBuffer := cfg.length_callback _
      workspace := h.workspace
      got := h.got
      resampler := ⟨r',ys,rfl,hfed',hsame.trans hproduced,hlen,htake⟩ }
  · obtain ⟨k,hk⟩ := (hfed.valid.reached (Stream'.const 0)).length
    have hrest : r₀.produced.length+s.outputFrames*cfg.inputChannels = (k+(s.outputFrames-t.got))*cfg.inputChannels := by
      rw [Nat.add_mul,← hk,hproduced,List.length_append,hlen,Nat.add_assoc,← Nat.add_mul,Nat.add_sub_cancel' hgot.le]
    have hlt : r₁.produced.length < (k+(s.outputFrames-t.got))*cfg.inputChannels := by
      rw [hk]
      exact Nat.mul_lt_mul_of_pos_right (by omega) cfg.inputChannels_pos
    have hneed := hfed.pulled_lt hkeeps hne hq hlt
    rw [← hrest] at hneed
    have hblock : 0 < cfg.inputFrames*cfg.inputChannels*cfg.outputSr :=
      Nat.mul_pos (Nat.mul_pos cfg.inputFrames_pos cfg.inputChannels_pos) cfg.outputSr_pos
    have hsucc : (t.converter.pulled+1)*(cfg.inputFrames*cfg.inputChannels)*cfg.outputSr =
        t.converter.pulled*(cfg.inputFrames*cfg.inputChannels)*cfg.outputSr+
          cfg.inputFrames*cfg.inputChannels*cfg.outputSr := by ring
    unfold Resampling.rank
    dsimp only
    omega

theorem Resampled.round {s : State cfg} {r₀ : Resampler.State cfg.speex} {t : Resampling cfg} (h : Resampled lit s r₀ t)
    (hne : cfg.inputSr ≠ cfg.outputSr) (hgot : t.got < s.outputFrames) :
    Meets cfg.KeepsUp (t.round lit s.outputFrames) Event.Sound fun u =>
      Resampled lit s r₀ u ∧ (cfg.KeepsUp → u.rank s r₀ < t.rank s r₀) := by
  obtain ⟨r,_,hr,_⟩ := h.resampler
  rw [Resampling.round,hr]
  refine (h.write lit hgot hr).meets.bind fun w ⟨hshort,hw⟩ => ?_
  dsimp only
  by_cases hmore : t.got+w.count < s.outputFrames
  · rw [if_pos hmore]
    refine (hw.feed lit hne hmore rfl (hshort hmore)).bind fun u ⟨hu,hrank⟩ => .pure ⟨hu,fun hkeeps => ?_⟩
    refine (hrank hkeeps).trans_le ?_
    unfold Resampling.rank
    dsimp only
    omega
  · rw [if_neg hmore]
    refine .pure ⟨hw,fun _ => ?_⟩
    unfold Resampling.rank
    dsimp only
    omega

end Resample

section Refill

variable [Zero α] [Add α] [Mul α] (lit : ℚ → α)

omit [Zero α] [Add α] in
/-- The frames that the refills so far are made of, before the remix. -/
def State.source (s : State cfg) : List α :=
  if cfg.inputSr = cfg.outputSr then (List.range s.pulled).flatMap cfg.callback
  else (s.resampler.elim [] Resampler.State.produced).map (· * lit 0.94)

structure Valid (s : State cfg) : Prop where
  outputFrames : 1 ≤ s.outputFrames
  consumed : s.consumedOutputFrames ≤ s.outputFrames
  inputBuffer : s.inputBuffer.length = cfg.inputFrames*cfg.inputChannels
  outputBuffer : s.outputBuffer.length = s.outputFrames*cfg.outputChannels
  workspace : cfg.inputSr ≠ cfg.outputSr → s.resamplerWorkspace.length = s.outputFrames*cfg.inputChannels
  fed : cfg.inputSr ≠ cfg.outputSr → ∃ r, s.resampler = some r ∧ Fed cfg s.pulled r
  direct : cfg.inputSr = cfg.outputSr → s.outputFrames = cfg.inputFrames ∧ s.pulled = s.refills
  source : (s.source lit).length = s.refills*s.outputFrames*cfg.inputChannels
  flow : mixed lit cfg.inputChannels cfg.outputChannels (s.source lit) =
    s.delivered ++ s.outputBuffer.drop (s.consumedOutputFrames*cfg.outputChannels)

structure Refilled (s t : State cfg) : Prop where
  outputFrames : t.outputFrames = s.outputFrames
  refills : t.refills = s.refills
  delivered : t.delivered = s.delivered
  inputBuffer : t.inputBuffer.length = cfg.inputFrames*cfg.inputChannels
  workspace : cfg.inputSr ≠ cfg.outputSr → t.resamplerWorkspace.length = s.outputFrames*cfg.inputChannels
  fed : cfg.inputSr ≠ cfg.outputSr → ∃ r, t.resampler = some r ∧ Fed cfg t.pulled r
  pulled : cfg.inputSr = cfg.outputSr → t.pulled = s.pulled+1
  source : ∃ samples, t.source lit = s.source lit ++ samples ∧ samples.length = s.outputFrames*cfg.inputChannels ∧
    t.outputBuffer = mixed lit cfg.inputChannels cfg.outputChannels samples

variable {lit}

theorem Valid.delivered {s : State cfg} (hs : Valid lit s) (hused : s.consumedOutputFrames = s.outputFrames) :
    mixed lit cfg.inputChannels cfg.outputChannels (s.source lit) = s.delivered := by
  rw [hs.flow,hused,← hs.outputBuffer,List.drop_length,List.append_nil]

theorem Valid.length_mixed {s : State cfg} (hs : Valid lit s) :
    (mixed lit cfg.inputChannels cfg.outputChannels (s.source lit)).length =
      s.refills*s.outputFrames*cfg.outputChannels :=
  Remix.length_mixed lit cfg.inputChannels_pos cfg.outputChannels_pos hs.source

theorem Valid.refilled {s t : State cfg} (hs : Valid lit s) (hused : s.consumedOutputFrames = s.outputFrames)
    (ht : Refilled lit s t) : Valid lit { t with consumedOutputFrames := 0, refills := t.refills+1 } := by
  obtain ⟨samples,hsource,hlen,hbuffer⟩ := ht.source
  exact {
    outputFrames := ht.outputFrames ▸ hs.outputFrames
    consumed := Nat.zero_le _
    inputBuffer := ht.inputBuffer
    outputBuffer := by
      dsimp only
      rw [hbuffer,Remix.length_mixed lit cfg.inputChannels_pos cfg.outputChannels_pos hlen,ht.outputFrames]
    workspace := fun hne => (ht.workspace hne).trans (by rw [ht.outputFrames])
    fed := ht.fed
    direct := fun heq => by
      obtain ⟨hframes,hpulled⟩ := hs.direct heq
      exact ⟨ht.outputFrames.trans hframes,by rw [ht.pulled heq,hpulled,ht.refills]⟩
    source := by
      change (t.source lit).length = _
      rw [hsource,List.length_append,hs.source,hlen,ht.refills,ht.outputFrames,← Nat.add_mul,Nat.succ_mul]
    flow := by
      change mixed lit _ _ (t.source lit) = t.delivered ++ t.outputBuffer.drop _
      rw [hsource,mixed_append lit cfg.inputChannels_pos cfg.outputChannels_pos hs.source hlen,hs.delivered hused,
        ht.delivered,hbuffer,Nat.zero_mul,List.drop_zero] }

theorem Valid.pull {s : State cfg} (hs : Valid lit s) (hused : s.consumedOutputFrames = s.outputFrames)
    (heq : cfg.inputSr = cfg.outputSr) : Event.Sound (.callback s) := by
  obtain ⟨hframes,hpulled⟩ := hs.direct heq
  simp only [Event.Sound,Event.Timely,if_pos heq]
  refine ⟨hused,?_⟩
  rw [← hs.delivered hused,hs.length_mixed,hframes,hpulled,Nat.mul_assoc]

/-- Frames that become the output buffer, of a converter that resamples or has pulled
them itself. -/
theorem State.mix_meets {total : Prop} {s : State cfg} {frames : ℕ} {samples : List α}
    (hne : cfg.inputChannels ≠ cfg.outputChannels) (hsamples : samples.length = frames*cfg.inputChannels)
    (hbuffer : s.outputBuffer.length = frames*cfg.outputChannels) :
    Meets total (s.mix lit frames samples) Event.Sound fun t =>
      t = { s with outputBuffer := mixed lit cfg.inputChannels cfg.outputChannels samples } := by
  have hmix := remixAudioInterleaved_returns lit hne cfg.inputChannels_pos cfg.outputChannels_pos hsamples hbuffer
  refine (hmix.ends rfl).meets.bind fun out hout => .pure ?_
  rw [← hout]

theorem Valid.refilled_block {s : State cfg} (hs : Valid lit s) (heq : cfg.inputSr = cfg.outputSr) {t : State cfg} {inputBuffer : List α}
    (hlen : inputBuffer.length = cfg.inputFrames*cfg.inputChannels)
    (ht : t = { s with
      inputBuffer := inputBuffer
      outputBuffer := mixed lit cfg.inputChannels cfg.outputChannels (cfg.callback s.pulled)
      pulled := s.pulled+1 }) : Refilled lit s t := by
  subst ht
  exact {
    outputFrames := rfl
    refills := rfl
    delivered := rfl
    inputBuffer := hlen
    workspace := fun hne => absurd heq hne
    fed := fun hne => absurd heq hne
    pulled := fun _ => rfl
    source := by
      refine ⟨cfg.callback s.pulled,?_,?_,rfl⟩
      · simp only [State.source,if_pos heq,List.range_succ,List.flatMap_append,List.flatMap_singleton]
      · rw [cfg.length_callback,(hs.direct heq).1] }

/-- The end of the resampling loop, with the workspace full. -/
theorem Resampled.refilled {s : State cfg} {r₀ : Resampler.State cfg.speex} {t : Resampling cfg}
    (h : Resampled lit s r₀ t) (hr₀ : s.resampler = some r₀) (hne : cfg.inputSr ≠ cfg.outputSr)
    (hstop : ¬ t.got < s.outputFrames) {u : State cfg}
    (hu : u = { t.converter with
      outputBuffer := mixed lit cfg.inputChannels cfg.outputChannels t.converter.resamplerWorkspace }) :
    Refilled lit s u := by
  obtain ⟨r,ys,hr,hfed,hproduced,hlen,htake⟩ := h.resampler
  have hgot : t.got = s.outputFrames := le_antisymm h.got (not_lt.mp hstop)
  rw [hgot,← h.workspace,List.take_length] at htake
  subst hu
  exact {
    outputFrames := h.outputFrames
    refills := h.refills
    delivered := h.delivered
    inputBuffer := h.inputBuffer
    workspace := fun _ => h.workspace
    fed := fun _ => ⟨r,hr,hfed⟩
    pulled := fun heq => absurd heq hne
    source := by
      refine ⟨t.converter.resamplerWorkspace,?_,h.workspace,rfl⟩
      simp only [State.source,if_neg hne,hr,hr₀,Option.elim_some,hproduced,List.map_append,htake] }

theorem Valid.resampled {s : State cfg} (hs : Valid lit s) (hne : cfg.inputSr ≠ cfg.outputSr) :
    ∃ r₀, s.resampler = some r₀ ∧ Resampled lit s r₀ ⟨s,0⟩ := by
  obtain ⟨r₀,hr₀,hfed⟩ := hs.fed hne
  refine ⟨r₀,hr₀,rfl,rfl,rfl,rfl,hs.inputBuffer,hs.workspace hne,Nat.zero_le _,r₀,[],hr₀,hfed,?_⟩
  simp

theorem Valid.refillDirect {s : State cfg} (hs : Valid lit s) (hused : s.consumedOutputFrames = s.outputFrames)
    (heq : cfg.inputSr = cfg.outputSr) :
    Meets cfg.KeepsUp (s.refillDirect lit) Event.Sound (Refilled lit s) := by
  have hframes := (hs.direct heq).1
  have hblock := cfg.length_callback s.pulled
  unfold State.refillDirect
  by_cases hch : cfg.inputChannels = cfg.outputChannels
  · have hbuffer : s.outputBuffer.length = cfg.inputFrames*cfg.inputChannels := by
      rw [hs.outputBuffer,hframes,hch]
    rw [if_pos hch]
    refine (State.invoke_meets (hs.pull hused heq) hbuffer).bind fun block hb => .pure ?_
    refine hs.refilled_block heq hs.inputBuffer ?_
    rw [hb,← hch,mixed_self]
  · rw [if_neg hch]
    refine (State.invoke_meets (hs.pull hused heq) hs.inputBuffer).bind fun block hb => ?_
    subst hb
    refine (State.mix_meets hch hblock (hframes ▸ hs.outputBuffer)).imp fun t ht => ?_
    exact hs.refilled_block heq hblock ht

theorem Valid.refillResampled {s : State cfg} (hs : Valid lit s) (hne : cfg.inputSr ≠ cfg.outputSr) :
    Meets cfg.KeepsUp (s.refillResampled lit) Event.Sound (Refilled lit s) := by
  obtain ⟨r₀,hr₀,hstart⟩ := hs.resampled hne
  refine (Meets.whileLoop (Resampled lit s r₀) (Resampling.rank s r₀) hstart fun t ht hgot =>
    ht.round lit hne hgot).bind ?_
  rintro t ⟨ht,hstop⟩
  have hbuffer : t.converter.outputBuffer.length = s.outputFrames*cfg.outputChannels := by
    rw [ht.outputBuffer,hs.outputBuffer]
  dsimp only
  by_cases hch : cfg.inputChannels = cfg.outputChannels
  · have hall : t.converter.outputFrames*cfg.outputChannels = t.converter.resamplerWorkspace.length := by
      rw [ht.outputFrames,ht.workspace,hch]
    have hregion : 0+t.converter.outputFrames*cfg.outputChannels ≤ t.converter.resamplerWorkspace.length := by omega
    rw [if_pos hch]
    refine (Buffer.region_meets hregion).bind fun samples hsamples => ?_
    rw [hall,Buffer.slice_all] at hsamples
    have hlen : samples.length = t.converter.outputBuffer.length := by
      rw [hsamples,← hall,hbuffer,ht.outputFrames]
    refine (Buffer.store_meets (by omega)).bind fun outputBuffer hstored => .pure ?_
    refine ht.refilled hr₀ hne hstop ?_
    rw [hstored,Buffer.splice_all _ hlen,hsamples,← hch,mixed_self]
  · rw [if_neg hch,ht.outputFrames]
    refine (State.mix_meets hch ht.workspace hbuffer).imp fun u hu => ?_
    exact ht.refilled hr₀ hne hstop hu

/-- A refill takes up the frames that come next, whichever way they go. -/
theorem Valid.refill {s : State cfg} (hs : Valid lit s) (hused : s.consumedOutputFrames = s.outputFrames) :
    Meets cfg.KeepsUp (s.refillOutputBuffer lit) Event.Sound fun t => Valid lit t ∧
      t.consumedOutputFrames = 0 ∧ t.outputFrames = s.outputFrames ∧ t.delivered = s.delivered := by
  refine Meets.bind (Q := Refilled lit s) ?_ fun t ht =>
    .pure ⟨hs.refilled hused ht,rfl,ht.outputFrames,ht.delivered⟩
  by_cases heq : cfg.inputSr = cfg.outputSr
  · rw [if_pos heq]
    exact hs.refillDirect hused heq
  · rw [if_neg heq]
    exact hs.refillResampled heq

end Refill

end SampleFormatConverter
end AudioOutput
