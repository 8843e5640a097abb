import AudioOutput.ConverterRefill
import Mathlib.Algebra.Order.Floor.Div

/-!
# Requests to the converter

However a number of frames is split into requests, they are the first frames of one
reference stream, and the callback is invoked only when its blocks are used up.
-/

namespace AudioOutput
namespace SampleFormatConverter

open Program Remix BlockLength

variable {α : Type} {cfg : Config α}

section Write

variable [Zero α] [Add α] [Mul α] (lit : ℚ → α)

structure Ready (s : State cfg) : Prop where
  valid : Valid lit s
  started : 0 < s.consumedOutputFrames

structure Writes (s : State cfg) (frames : ℕ) (buffer : List α) (t : Writing cfg) : Prop where
  valid : Valid lit t.converter
  started : 0 < t.converter.consumedOutputFrames ∨ t.written ≠ frames
  written : t.written ≤ frames
  length : t.buffer.length = buffer.length
  delivered : t.converter.delivered = s.delivered ++ t.buffer.take (t.written*cfg.outputChannels)

/-- A refill raises nothing but is followed by a copy. -/
def Writing.rank (frames : ℕ) (t : Writing cfg) : ℕ :=
  2*(frames-t.written)+if t.converter.consumedOutputFrames = t.converter.outputFrames then 1 else 0

variable {lit}

theorem Writes.copy {s : State cfg} {frames : ℕ} {buffer : List α} {t : Writing cfg} (h : Writes lit s frames buffer t)
    (hroom : frames*cfg.outputChannels ≤ buffer.length) {n : ℕ} (hn : 0 < n) (hframes : t.written+n ≤ frames)
    (hleft : t.converter.consumedOutputFrames+n ≤ t.converter.outputFrames) :
    Meets cfg.KeepsUp (t.copy n) Event.Sound fun u => Writes lit s frames buffer u ∧ u.rank frames < t.rank frames := by
  have hregion : t.converter.consumedOutputFrames*cfg.outputChannels+n*cfg.outputChannels ≤
      t.converter.outputBuffer.length := by
    rw [h.valid.outputBuffer,← Nat.add_mul]
    exact Nat.mul_le_mul_right _ hleft
  refine (Buffer.region_meets hregion).bind fun samples hsamples => ?_
  have hlen : samples.length = n*cfg.outputChannels := by rw [hsamples,Buffer.length_slice _ hregion]
  have hstore : t.written*cfg.outputChannels+samples.length ≤ t.buffer.length := by
    rw [hlen,← Nat.add_mul,h.length]
    exact (Nat.mul_le_mul_right _ hframes).trans hroom
  refine (Buffer.store_meets hstore).bind fun b hb => .pure ⟨?_,?_⟩
  · exact {
      valid := {
        outputFrames := h.valid.outputFrames
        consumed := hleft
        inputBuffer := h.valid.inputBuffer
        outputBuffer := h.valid.outputBuffer
        workspace := h.valid.workspace
        fed := h.valid.fed
        direct := h.valid.direct
        source := h.valid.source
        flow := by
          have hflow := h.valid.flow
          rw [← Buffer.slice_append_drop _ _ (n*cfg.outputChannels),← hsamples,← List.append_assoc,
            ← Nat.add_mul] at hflow
          exact hflow }
      started := Or.inl (by dsimp only; omega)
      written := hframes
      length := by dsimp only; rw [hb,Buffer.length_splice _ hstore,h.length]
      delivered := by
        dsimp only
        rw [hb,h.delivered,Nat.add_mul,← hlen,Buffer.take_splice _ hstore,List.append_assoc] }
  · unfold Writing.rank
    dsimp only
    split <;> split <;> omega

theorem Writes.round {s : State cfg} {frames : ℕ} {buffer : List α} {t : Writing cfg} (h : Writes lit s frames buffer t)
    (hroom : frames*cfg.outputChannels ≤ buffer.length) (hmore : t.written ≠ frames) :
    Meets cfg.KeepsUp (t.round lit frames) Event.Sound fun u =>
      Writes lit s frames buffer u ∧ (cfg.KeepsUp → u.rank frames < t.rank frames) := by
  have hwritten := h.written
  have hconsumed := h.valid.consumed
  unfold Writing.round
  dsimp only
  by_cases hnone : min (frames-t.written) (t.converter.outputFrames-t.converter.consumedOutputFrames) = 0
  · have hused : t.converter.consumedOutputFrames = t.converter.outputFrames := by omega
    rw [if_pos hnone]
    refine (h.valid.refill hused).bind fun u ⟨hu,hconsumed',hframes,hdelivered⟩ => .pure ⟨?_,fun _ => ?_⟩
    · exact ⟨hu,Or.inr hmore,hwritten,h.length,hdelivered.trans h.delivered⟩
    · have hpos := h.valid.outputFrames
      unfold Writing.rank
      dsimp only
      rw [if_pos hused,if_neg (by omega)]
      exact Nat.lt_succ_self _
  · rw [if_neg hnone]
    refine (h.copy hroom (by omega) (by omega) (by omega)).imp fun u hu => ⟨hu.1,fun _ => hu.2⟩

theorem Ready.write {s : State cfg} (hs : Ready lit s) {frames : ℕ} {buffer : List α}
    (hroom : frames*cfg.outputChannels ≤ buffer.length) :
    Meets cfg.KeepsUp (s.write lit frames buffer) Event.Sound fun t => Ready lit t.converter ∧
      t.written = frames ∧ t.buffer.length = buffer.length ∧
      t.converter.delivered = s.delivered ++ t.buffer.take (frames*cfg.outputChannels) := by
  have hstart : Writes lit s frames buffer ⟨s,buffer,0⟩ :=
    ⟨hs.valid,Or.inl hs.started,Nat.zero_le _,rfl,by simp⟩
  refine (Meets.whileLoop (Writes lit s frames buffer) (Writing.rank frames) hstart fun t ht hmore =>
    ht.round hroom hmore).imp ?_
  rintro t ⟨ht,hstop⟩
  have hdone : t.written = frames := not_not.mp hstop
  exact ⟨⟨ht.valid,ht.started.resolve_right hstop⟩,hdone,ht.length,hdone ▸ ht.delivered⟩

def Request.Fits (cfg : Config α) (r : Request α) : Prop := r.frames*cfg.outputChannels ≤ r.buffer.length

theorem Ready.requests {s : State cfg} (hs : Ready lit s) {rs : List (Request α)} (hrs : ∀ r ∈ rs, r.Fits cfg) :
    Meets cfg.KeepsUp (s.requests lit rs) Event.Sound fun t => Ready lit t.1 ∧ t.1.delivered = s.delivered ++ t.2 ∧
      t.2.length = (rs.map Request.frames).sum*cfg.outputChannels := by
  induction rs generalizing s with
  | nil => exact .pure ⟨hs,by simp,by simp⟩
  | cons r rs ih =>
    have hroom : r.frames*cfg.outputChannels ≤ r.buffer.length := hrs r List.mem_cons_self
    refine (hs.write hroom).bind fun t ⟨ht,_,hlen,hdelivered⟩ => ?_
    refine (ih ht fun q hq => hrs q (List.mem_cons_of_mem _ hq)).bind fun u ⟨hu,hdelivered',hlen'⟩ => ?_
    refine .pure ⟨hu,?_,?_⟩
    · dsimp only
      rw [hdelivered',hdelivered,List.append_assoc]
    · dsimp only
      rw [List.length_append,List.length_take,hlen,Nat.min_eq_left hroom,hlen',List.map_cons,List.sum_cons,Nat.add_mul]

end Write

section Construct

/-- The arithmetic of the constructor stays within its ints. -/
structure Config.NoOverflow (cfg : Config α) : Prop where
  length : cfg.inputSr ≠ cfg.outputSr → (cfg.inputFrames*cfg.outputSr : ℤ) < 2^31
  workspace : cfg.inputSr ≠ cfg.outputSr → cfg.blockFrames*cfg.inputChannels < 2^31
  inputBuffer : (cfg.inputFrames*cfg.inputChannels : ℤ) < 2^31
  outputBuffer : cfg.blockFrames*cfg.outputChannels < 2^31

theorem newArray_meets [Zero α] {total : Prop} {ε : Type} {P : ε → Prop} {m n : ℕ} (h : (m*n : ℤ) < 2^31) :
    Meets total (newArray (wrap32 (m*n)) : Program ε (List α)) P (· = List.replicate (m*n) 0) := by
  have hpos : (0 : ℤ) ≤ m*n := by positivity
  rw [wrap32_of_lt hpos h]
  have hlen : (m*n : ℤ).toNat = m*n := by rw [← Nat.cast_mul,Int.toNat_natCast]
  exact .ofExcept (by rw [if_pos hpos,hlen])

theorem Config.NoOverflow.blockFrames {cfg : Config α} (h : cfg.NoOverflow) :
    ∃ n : ℕ, cfg.blockFrames = n ∧ 1 ≤ n ∧ (cfg.inputSr = cfg.outputSr → n = cfg.inputFrames) := by
  have hpos : 1 ≤ cfg.blockFrames := converterFrames_pos (mod_cast cfg.inputFrames_pos) (mod_cast cfg.inputSr_pos)
    (mod_cast cfg.outputSr_pos) fun hne => h.length (mod_cast hne)
  refine ⟨cfg.blockFrames.toNat,by omega,by omega,fun heq => ?_⟩
  rw [Config.blockFrames,converterFrames,if_neg (by simp [heq]),Int.toNat_natCast]

theorem newResampler_meets [Zero α] {n : ℕ} (hn : cfg.blockFrames = n) (h : cfg.NoOverflow) :
    Meets cfg.KeepsUp (newResampler cfg) Event.Sound fun r =>
      if cfg.inputSr = cfg.outputSr then r = (none,[])
      else r = (some (Resampler.create cfg.speex),List.replicate (n*cfg.inputChannels) 0) := by
  unfold newResampler
  by_cases heq : cfg.inputSr = cfg.outputSr
  · rw [if_neg (not_not.mpr heq)]
    exact .pure (by rw [if_pos heq])
  · have hsize := h.workspace heq
    rw [if_pos heq,hn]
    rw [hn] at hsize
    refine (newArray_meets hsize).bind fun workspace hw => .pure ?_
    rw [if_neg heq,hw]

variable [Zero α] [Add α] [Mul α] (lit : ℚ → α)

omit [Zero α] [Add α] in
theorem State.source_of_fresh {s : State cfg} (hpulled : s.pulled = 0)
    (hr : s.resampler = none ∨ s.resampler = some (Resampler.create cfg.speex)) : s.source lit = [] := by
  unfold State.source
  rw [hpulled]
  rcases hr with hr | hr <;> rw [hr] <;> simp [Resampler.create]

theorem construct_meets (h : cfg.NoOverflow) :
    Meets cfg.KeepsUp (construct cfg) Event.Sound fun s => Ready lit s ∧ s.delivered = [] := by
  obtain ⟨n,hn,hpos,hsame⟩ := h.blockFrames
  have hsize := h.outputBuffer
  rw [hn] at hsize
  refine (newResampler_meets hn h).bind fun r hr => ?_
  obtain ⟨resampler,workspace⟩ := r
  refine (newArray_meets h.inputBuffer).bind fun inputBuffer hin => ?_
  rw [hn]
  refine (newArray_meets hsize).bind fun outputBuffer hout => .pure ⟨⟨?_,?_⟩,rfl⟩
  · have hnull : resampler = none ∨ resampler = some (Resampler.create cfg.speex) := by
      by_cases heq : cfg.inputSr = cfg.outputSr
      · rw [if_pos heq] at hr
        exact Or.inl (Prod.mk.inj hr).1
      · rw [if_neg heq] at hr
        exact Or.inr (Prod.mk.inj hr).1
    exact {
      outputFrames := by simpa using hpos
      consumed := le_rfl
      inputBuffer := by simp [hin]
      outputBuffer := by simp [hout]
      workspace := fun hne => by
        rw [if_neg hne] at hr
        simp [(Prod.mk.inj hr).2]
      fed := fun hne => by
        rw [if_neg hne] at hr
        exact ⟨_,(Prod.mk.inj hr).1,Resampler.create_valid cfg.inputFrames_pos,rfl,Nat.zero_le _,Nat.zero_le _⟩
      direct := fun heq => ⟨by simpa using hsame heq,rfl⟩
      source := by
        rw [State.source_of_fresh lit rfl hnull]
        simp
      flow := by
        rw [State.source_of_fresh lit rfl hnull,hout]
        simp [mixed] }
  · simpa using Nat.lt_of_lt_of_le Nat.zero_lt_one hpos

theorem session_meets (h : cfg.NoOverflow) {rs : List (Request α)} (hrs : ∀ r ∈ rs, r.Fits cfg) :
    Meets cfg.KeepsUp (session lit cfg rs) Event.Sound fun t => Ready lit t.1 ∧ t.1.delivered = t.2 ∧
      t.2.length = (rs.map Request.frames).sum*cfg.outputChannels := by
  refine (construct_meets lit h).bind fun s ⟨hs,hnone⟩ => (hs.requests hrs).imp fun t ⟨ht,hdelivered,hlen⟩ => ?_
  rw [hnone] at hdelivered
  exact ⟨ht,hdelivered,hlen⟩

end Construct

section Streams

variable [Zero α] [Add α] [Mul α] (lit : ℚ → α)

def Config.blocks (cfg : Config α) : Stream' α :=
  BlockStream.concat (cfg.inputFrames*cfg.inputChannels) cfg.callback

/-- What there is to remix: the blocks, or what speex makes of them, attenuated. -/
def Config.stream (cfg : Config α) (resampled : Stream' α → Stream' α) : Stream' α :=
  if cfg.inputSr = cfg.outputSr then cfg.blocks else (resampled cfg.blocks).map (· * lit 0.94)

omit [Add α] [Mul α] in
theorem take_blocks (cfg : Config α) (n : ℕ) :
    cfg.blocks.take (n*(cfg.inputFrames*cfg.inputChannels)) = (List.range n).flatMap cfg.callback :=
  BlockStream.take_concat cfg.callback (Nat.mul_pos cfg.inputFrames_pos cfg.inputChannels_pos) cfg.length_callback n

/-- The source frames of the refills are the first of the stream. -/
theorem Valid.source_eq_take {s : State cfg} (hs : Valid lit s) {resampled : Stream' α → Stream' α}
    (hspeex : cfg.inputSr ≠ cfg.outputSr → cfg.speex.Streams cfg.inputSr cfg.outputSr resampled) :
    s.source lit = (cfg.stream lit resampled).take (s.source lit).length := by
  unfold State.source Config.stream
  by_cases heq : cfg.inputSr = cfg.outputSr
  · rw [if_pos heq,if_pos heq,length_flatMap_callback,take_blocks]
  · obtain ⟨r,hr,hfed⟩ := hs.fed heq
    have hgiven : r.given.flatten = cfg.blocks.take (s.pulled*(cfg.inputFrames*cfg.inputChannels)) := by
      rw [take_blocks,hfed.given,List.flatMap_def]
    have hreached := hfed.valid.reached (cfg.blocks.drop (s.pulled*(cfg.inputFrames*cfg.inputChannels)))
    rw [hgiven,Stream'.append_take_drop] at hreached
    rw [if_neg heq,if_neg heq,hr,Option.elim_some,List.length_map,← Stream'.map_take]
    exact congrArg (List.map _) ((hspeex heq).output hreached)

/-- However the requests are split, the frames written are the first frames of one
stream: the blocks pulled, resampled and attenuated if the rates differ, and remixed
frame by frame if the channel counts do. -/
theorem converter_reference (h : cfg.NoOverflow) {resampled : Stream' α → Stream' α}
    (hspeex : cfg.inputSr ≠ cfg.outputSr → cfg.speex.Streams cfg.inputSr cfg.outputSr resampled) :
    ∃ R : Stream' α, Remixed lit cfg.inputChannels cfg.outputChannels (cfg.stream lit resampled) R ∧
      ∀ rs : List (Request α), (∀ r ∈ rs, r.Fits cfg) → Ends (session lit cfg rs) fun t =>
        t.2 = R.take ((rs.map Request.frames).sum*cfg.outputChannels) := by
  have hm := cfg.inputChannels_pos
  have hn := cfg.outputChannels_pos
  refine ⟨mixedStream lit _ _ (cfg.stream lit resampled),remixed_mixedStream lit hm hn _,fun rs hrs => ?_⟩
  refine ((session_meets lit h hrs).2 (Config.Ahead.keepsUp fun hne => (hspeex hne).ahead)).imp ?_
  rintro ⟨s,out⟩ ⟨hs,hout,hlen⟩
  dsimp only at hout hlen ⊢
  subst hout
  have hsource := hs.valid.source_eq_take lit hspeex
  rw [hs.valid.source] at hsource
  have hall := take_mixedStream lit hm hn (cfg.stream lit resampled) (s.refills*s.outputFrames)
  rw [← hsource,hs.valid.flow] at hall
  rw [← hlen]
  exact BlockStream.eq_take_of_prefix ⟨_,hall.symm⟩

theorem counting_noOverflow : (counting 24000 (by decide)).NoOverflow ∧ (counting 48000 (by decide)).NoOverflow := by
  refine ⟨⟨?_,?_,?_,?_⟩,⟨?_,?_,?_,?_⟩⟩ <;> decide

/-- Two requests that end inside a block. -/
theorem converter_reference_counting :
    Ends (session id (counting 48000 (by decide)) [⟨3,[7,7,7,7,7,7]⟩,⟨2,[7,7,7,7]⟩]) fun t =>
      t.2 = [0.94,0.94,0.94,0.94,1.88,1.88,1.88,1.88,2.82,2.82] := by
  obtain ⟨R,hR,hends⟩ := converter_reference id counting_noOverflow.2 fun _ => Resampler.twofold_streams le_rfl 24000
  have hfive : ((counting 48000 (by decide)).stream id (Resampler.doubled 1)).take (5*1) = [0.94,0.94,1.88,1.88,2.82] := by
    simp [Config.stream,Config.blocks,BlockStream.concat,counting,Resampler.doubled,Stream'.take_succ,Stream'.head,Stream'.tail,
      Stream'.get,Stream'.map]
    norm_num
  refine (hends _ (by simp [Request.Fits,counting])).imp fun t ht => ht.trans ?_
  calc
    R.take (5*2) = mixed id 1 2 (((counting 48000 (by decide)).stream id (Resampler.doubled 1)).take (5*1)) :=
      hR.take id (by decide) (by decide) 5
    _ = mixed id 1 2 [0.94,0.94,1.88,1.88,2.82] := congrArg _ hfive
    _ = [0.94,0.94,0.94,0.94,1.88,1.88,1.88,1.88,2.82,2.82] := by decide +kernel

theorem Ready.pulled {s : State cfg} (hs : Ready lit s) (heq : cfg.inputSr = cfg.outputSr) {frames : ℕ}
    (hlen : s.delivered.length = frames*cfg.outputChannels) :
    s.pulled*cfg.inputFrames = frames+(cfg.inputFrames-s.consumedOutputFrames) := by
  obtain ⟨hframes,hpulled⟩ := hs.valid.direct heq
  have hflow := congrArg List.length hs.valid.flow
  rw [hs.valid.length_mixed,List.length_append,List.length_drop,hs.valid.outputBuffer,hlen,← Nat.sub_mul,
    ← Nat.add_mul,hframes,← hpulled] at hflow
  exact Nat.eq_of_mul_eq_mul_right cfg.outputChannels_pos hflow

/-- In any run, finished or not, the callback is invoked only when every frame of the
blocks before has been used, and one block at most waits in the one buffer of the
resampler; at equal rates `T` frames take `⌈T/inputFrames⌉` blocks. -/
theorem converter_pulls (h : cfg.NoOverflow) {rs : List (Request α)} (hrs : ∀ r ∈ rs, r.Fits cfg) :
    (Always (session lit cfg rs) Event.Timely fun t => cfg.inputSr ≠ cfg.outputSr →
      ∃ r, t.1.resampler = some r ∧ r.queue.length ≤ 1 ∧ r.allocated ≤ 1) ∧
    (cfg.inputSr = cfg.outputSr → Ends (session lit cfg rs) fun t =>
      t.1.pulled = (rs.map Request.frames).sum ⌈/⌉ cfg.inputFrames) := by
  have hmeets := session_meets lit h hrs
  refine ⟨(hmeets.1.imp_event fun e => Event.Sound.timely).imp fun t ht hne => ?_,fun heq => (hmeets.2 fun hne => absurd heq hne).imp fun t ht => ?_⟩
  · obtain ⟨r,hr,hfed⟩ := ht.1.valid.fed hne
    exact ⟨r,hr,hfed.queue,hfed.allocated⟩
  · obtain ⟨hready,hdelivered,hlen⟩ := ht
    have hpulled := hready.pulled lit heq (hdelivered ▸ hlen)
    have hstarted := hready.started
    have hpos := cfg.inputFrames_pos
    rw [Nat.ceilDiv_eq_add_pred_div]
    refine (Nat.div_eq_of_lt_le ?_ ?_).symm
    · rw [hpulled]
      omega
    · rw [Nat.succ_mul,hpulled]
      omega

/-- At twice the rate one block at most waits; at the same rate five frames take three
blocks of two. -/
theorem converter_pulls_counting :
    (Always (session id (counting 48000 (by decide)) [⟨3,[7,7,7,7,7,7]⟩,⟨2,[7,7,7,7]⟩]) Event.Timely fun t =>
      ∃ r, t.1.resampler = some r ∧ r.queue.length ≤ 1 ∧ r.allocated ≤ 1) ∧
    Ends (session id (counting 24000 (by decide)) [⟨3,[7,7,7,7,7,7]⟩,⟨2,[7,7,7,7]⟩]) fun t => t.1.pulled = 3 :=
  ⟨(converter_pulls id counting_noOverflow.2 (by simp [Request.Fits,counting])).1.imp fun _ ht => ht (by decide),
    (converter_pulls id counting_noOverflow.1 (by simp [Request.Fits,counting])).2 rfl⟩

end Streams

end SampleFormatConverter
end AudioOutput
