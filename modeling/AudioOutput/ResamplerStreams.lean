import AudioOutput.Resampler

/-!
# What goes into speex and what comes out

The frames still to be consumed are those of the queued blocks from `offset` on,
and the buffers are either queued or done. Both queues keep that whatever the
order of the calls of `read` and `write`.
-/

namespace AudioOutput
namespace Resampler

open Program

variable {α : Type} {inputChannels : ℕ} {speex : Speex α inputChannels}

/-- Speex is offered what comes next of the stream `input`: how many samples it has
consumed, and what it has given back. It may have looked at more than it has consumed. -/
inductive Speex.Reached (speex : Speex α inputChannels) (input : Stream' α) : speex.State → ℕ → List α → Prop
  | initial : Speex.Reached speex input speex.initial 0 []
  | process {s : speex.State} {m : ℕ} {ys : List α} (h : Speex.Reached speex input s m ys) (n room : ℕ)
      {r : Processed α speex.State} (hr : r = speex.process s ((input.drop m).take (n*inputChannels)) n room) :
      Speex.Reached speex input r.state (m+r.consumed*inputChannels) (ys ++ r.samples)

/-- Speex gives back whole frames. -/
theorem Speex.Reached.length {input : Stream' α} {s : speex.State} {m : ℕ} {ys : List α} (h : speex.Reached input s m ys) :
    ∃ k, ys.length = k*inputChannels := by
  induction h with
  | initial => exact ⟨0,by simp⟩
  | @process s m ys h n room r hr ih =>
    obtain ⟨k,hk⟩ := ih
    refine ⟨k+r.produced,?_⟩
    rw [List.length_append,hk,hr,speex.length_samples _ _ _ _ (Stream'.length_take _ _),Nat.add_mul]

/-- Speex as a map of streams: whatever the calls, its output is the start of the
resampled stream and no shorter than the rates say for the input consumed. -/
structure Speex.Streams (speex : Speex α inputChannels) (inputSr outputSr : ℕ) (resampled : Stream' α → Stream' α) :
    Prop where
  output : ∀ {input : Stream' α} {s : speex.State} {m : ℕ} {ys : List α}, speex.Reached input s m ys →
    ys = (resampled input).take ys.length
  ahead : ∀ {input : Stream' α} {s : speex.State} {m : ℕ} {ys : List α}, speex.Reached input s m ys →
    m*outputSr ≤ ys.length*inputSr

structure Valid (inputFrameCount : ℕ) (s : State speex) : Prop where
  data : ∀ b ∈ s.queue ++ s.doneQueue, b.data.length = inputFrameCount*inputChannels
  offset : ∃ k < inputFrameCount, s.offset = k*inputChannels
  idle : s.queue = [] → s.offset = 0
  flow : s.given.flatten = s.consumed ++ (s.queue.flatMap Block.data).drop s.offset
  given : ∀ xs ∈ s.given, xs.length = inputFrameCount*inputChannels
  serials : s.queue.map Block.serial = List.range' (s.given.length-s.queue.length) s.queue.length
  queued : s.queue.length ≤ s.given.length
  filled : ∀ b ∈ s.queue ++ s.doneQueue, s.given[b.serial]? = some b.data
  done : ∀ b ∈ s.doneQueue, (b.serial+1)*(inputFrameCount*inputChannels) ≤ s.consumed.length
  addresses : ((s.queue ++ s.doneQueue).map Block.address).Perm (List.range s.allocated)
  reached : ∀ rest : Stream' α, speex.Reached (s.given.flatten ++ₛ rest) s.spxResampler s.consumed.length s.produced

variable {inputFrameCount : ℕ}

theorem create_valid (hframes : 1 ≤ inputFrameCount) : Valid inputFrameCount (create speex) := by
  constructor <;> simp [create]
  · exact ⟨0,hframes,by simp⟩
  · exact fun _ => .initial

namespace Valid

variable {s : State speex} (hs : Valid inputFrameCount s)
include hs

theorem consumed_prefix : s.consumed <+: s.given.flatten := ⟨_,hs.flow.symm⟩

theorem consumed_of_queue_nil (h : s.queue = []) : s.consumed = s.given.flatten := by
  rw [hs.flow,h]
  simp

theorem length_given : s.given.flatten.length = s.given.length*(inputFrameCount*inputChannels) := by
  have hlen := List.map_congr_left hs.given
  rw [List.length_flatten,hlen]
  simp

theorem length_queue (l : List (Block α)) (h : ∀ b ∈ l, b ∈ s.queue) :
    (l.flatMap Block.data).length = l.length*(inputFrameCount*inputChannels) := by
  have hlen : ∀ b ∈ l, b.data.length = inputFrameCount*inputChannels := fun b hb =>
    hs.data b (List.mem_append_left _ (h b hb))
  rw [List.length_flatMap,List.map_congr_left hlen]
  simp

theorem offset_le : s.offset ≤ (s.queue.flatMap Block.data).length := by
  obtain ⟨k,hk,hoff⟩ := hs.offset
  by_cases hnil : s.queue = []
  · rw [hs.idle hnil]
    exact Nat.zero_le _
  · rw [hs.length_queue _ fun _ h => h]
    calc s.offset = k*inputChannels := hoff
      _ ≤ inputFrameCount*inputChannels := Nat.mul_le_mul_right _ hk.le
      _ ≤ s.queue.length*(inputFrameCount*inputChannels) :=
        Nat.le_mul_of_pos_left _ (List.length_pos_of_ne_nil hnil)

theorem offered {buff : Block α} {rest : List (Block α)} (hq : s.queue = buff :: rest) (hchannels : 1 ≤ inputChannels) :
    s.offset+(inputFrameCount-s.offset/inputChannels)*inputChannels = buff.data.length ∧
    Buffer.slice buff.data s.offset ((inputFrameCount-s.offset/inputChannels)*inputChannels) =
      buff.data.drop s.offset := by
  obtain ⟨k,hk,hoff⟩ := hs.offset
  have hlen := hs.data buff (by simp [hq])
  have hdiv : s.offset/inputChannels = k := by rw [hoff,Nat.mul_div_cancel _ hchannels]
  have hend : s.offset+(inputFrameCount-s.offset/inputChannels)*inputChannels = buff.data.length := by
    rw [hdiv,hoff,hlen,← Nat.add_mul]
    congr 1
    omega
  refine ⟨hend,List.take_of_length_le ?_⟩
  rw [List.length_drop]
  omega

/-- What a call of speex on the first block leaves of it, from frame `k` on. -/
theorem consume {buff : Block α} {rest : List (Block α)} (hq : s.queue = buff :: rest) (hchannels : 1 ≤ inputChannels)
    (room : ℕ) {r : Processed α speex.State}
    (hr : r = speex.process s.spxResampler (buff.data.drop s.offset) (inputFrameCount-s.offset/inputChannels) room) :
    ∃ k ≤ inputFrameCount, s.offset+r.consumed*inputChannels = k*inputChannels ∧
      s.given.flatten = (s.account (buff.data.drop s.offset) r).consumed ++
        (buff.data.drop (k*inputChannels) ++ rest.flatMap Block.data) ∧
      ∀ tail : Stream' α, speex.Reached (s.given.flatten ++ₛ tail) r.state
        (s.account (buff.data.drop s.offset) r).consumed.length (s.produced ++ r.samples) := by
  obtain ⟨k,hk,hoff⟩ := hs.offset
  have hbuff := hs.data buff (by simp [hq])
  have hinput : (buff.data.drop s.offset).length = (inputFrameCount-k)*inputChannels := by
    rw [List.length_drop,hbuff,hoff,Nat.sub_mul]
  rw [hoff,Nat.mul_div_cancel _ hchannels,← hoff] at hr
  have hle : r.consumed ≤ inputFrameCount-k := hr ▸ speex.consumed_le _ _ _ _ hinput
  have hnext : s.offset+r.consumed*inputChannels = (k+r.consumed)*inputChannels := by rw [hoff,Nat.add_mul]
  have hdrop : s.offset ≤ buff.data.length := by
    rw [hoff,hbuff]
    exact Nat.mul_le_mul_right _ hk.le
  have hfit : r.consumed*inputChannels ≤ (buff.data.drop s.offset).length := hinput ▸ Nat.mul_le_mul_right _ hle
  have hgiven : s.given.flatten = s.consumed ++ (buff.data.drop s.offset ++ rest.flatMap Block.data) := by
    rw [hs.flow,hq,List.flatMap_cons,List.drop_append_of_le_length hdrop]
  refine ⟨k+r.consumed,by omega,hnext,?_,fun tail => ?_⟩
  · rw [hgiven,← hnext,← List.drop_drop,State.account,List.append_assoc,← List.append_assoc (List.take _ _),
      List.take_append_drop]
  · rw [State.account,List.length_append,List.length_take,Nat.min_eq_left hfit]
    refine (hs.reached tail).process (inputFrameCount-k) room ?_
    rw [hr,← hinput,hgiven,Stream'.append_append_stream,Stream'.append_append_stream,Stream'.drop_append_stream,
      Stream'.take_append_of_le_length _ _ _ le_rfl,List.take_length]

/-- The first block is not used up. -/
theorem keep {buff : Block α} {rest : List (Block α)} (hq : s.queue = buff :: rest) {input : List α}
    {r : Processed α speex.State} {k : ℕ} (hk : k < inputFrameCount)
    (hoffset : s.offset+r.consumed*inputChannels = k*inputChannels)
    (hflow : s.given.flatten = (s.account input r).consumed ++
      (buff.data.drop (k*inputChannels) ++ rest.flatMap Block.data))
    (hreached : ∀ tail : Stream' α, speex.Reached (s.given.flatten ++ₛ tail) r.state
      (s.account input r).consumed.length (s.produced ++ r.samples)) :
    Valid inputFrameCount (s.account input r) where
  data := hs.data
  offset := ⟨k,hk,hoffset⟩
  idle h := by simp [State.account,hq] at h
  flow := by
    have hdrop : k*inputChannels ≤ buff.data.length := by
      rw [hs.data buff (by simp [hq])]
      exact Nat.mul_le_mul_right _ hk.le
    rw [← List.drop_append_of_le_length hdrop,← List.flatMap_cons,← hq,← hoffset] at hflow
    exact hflow
  given := hs.given
  serials := hs.serials
  queued := hs.queued
  filled := hs.filled
  done b hb := (hs.done b hb).trans (by simp [State.account])
  addresses := hs.addresses
  reached := hreached

/-- The first block is used up and moves to `done_queue`. -/
theorem used {buff : Block α} {rest : List (Block α)} (hq : s.queue = buff :: rest) (hframes : 1 ≤ inputFrameCount)
    {input : List α} {r : Processed α speex.State}
    (hflow : s.given.flatten = (s.account input r).consumed ++ rest.flatMap Block.data)
    (hreached : ∀ tail : Stream' α, speex.Reached (s.given.flatten ++ₛ tail) r.state
      (s.account input r).consumed.length (s.produced ++ r.samples)) :
    Valid inputFrameCount { s.account input r with doneQueue := s.doneQueue ++ [buff], queue := rest, offset := 0 } := by
  have hserials := hs.serials
  have hqueued := hs.queued
  rw [hq,List.map_cons,List.length_cons,List.range'_succ,List.cons.injEq] at hserials
  rw [hq,List.length_cons] at hqueued
  have hlen := congrArg List.length hflow
  rw [hs.length_given,List.length_append,hs.length_queue rest fun b hb => by simp [hq,hb]] at hlen
  exact {
    data := fun b hb => hs.data b (by simp only [hq,List.mem_append,List.mem_cons] at hb ⊢; tauto)
    offset := ⟨0,hframes,by simp⟩
    idle := fun _ => rfl
    flow := hflow
    given := hs.given
    serials := by
      rw [hserials.2]
      congr 1
      simp only [State.account]
      omega
    queued := by
      simp only [State.account]
      omega
    filled := fun b hb => hs.filled b (by simp only [hq,List.mem_append,List.mem_cons] at hb ⊢; tauto)
    done := fun b hb => by
      rcases List.mem_append.mp hb with hb | hb
      · exact (hs.done b hb).trans (by simp [State.account])
      · obtain rfl := List.mem_singleton.mp hb
        rw [hserials.1]
        have hsub : s.given.length = s.given.length-(rest.length+1)+1+rest.length := by omega
        rw [hsub,Nat.add_mul] at hlen
        dsimp only
        omega
    addresses := by
      refine .trans (.map _ ?_) hs.addresses
      rw [hq,← List.append_assoc,List.cons_append]
      exact List.perm_append_singleton _ _
    reached := hreached }

/-- A call of speex on the first block of the queue. -/
theorem account {buff : Block α} {rest : List (Block α)} (hq : s.queue = buff :: rest) (hchannels : 1 ≤ inputChannels)
    (room : ℕ) {r : Processed α speex.State}
    (hr : r = speex.process s.spxResampler (buff.data.drop s.offset) (inputFrameCount-s.offset/inputChannels) room) :
    Valid inputFrameCount ((s.account (buff.data.drop s.offset) r).retire inputFrameCount buff rest) := by
  obtain ⟨k,hk,hoffset,hflow,hreached⟩ := hs.consume hq hchannels room hr
  have hend : k*inputChannels = inputFrameCount*inputChannels ↔ k = inputFrameCount := Nat.mul_left_inj (by omega)
  have hnext : (s.account (buff.data.drop s.offset) r).offset = k*inputChannels := hoffset
  rw [State.retire,hnext]
  by_cases hall : k = inputFrameCount
  · rw [hend.mpr hall,List.drop_eq_nil_of_le (hs.data buff (by simp [hq])).le,List.nil_append] at hflow
    obtain ⟨l,hl,_⟩ := hs.offset
    rw [if_pos (hend.mpr hall)]
    exact hs.used hq (by omega) hflow hreached
  · rw [if_neg fun h => hall (hend.mp h)]
    exact hs.keep hq (by omega) hoffset hflow hreached

end Valid

@[simp] theorem retire_fields (s : State speex) (buff : Block α) (rest : List (Block α)) :
    (s.retire inputFrameCount buff rest).given = s.given ∧
    (s.retire inputFrameCount buff rest).allocated = s.allocated ∧
    (s.retire inputFrameCount buff rest).produced = s.produced ∧
    (s.retire inputFrameCount buff rest).consumed = s.consumed := by
  unfold State.retire
  split <;> simp

theorem length_queue_retire (inputFrameCount : ℕ) {s : State speex} {buff : Block α} {rest : List (Block α)}
    (hq : s.queue = buff :: rest) (input : List α) (r : Processed α speex.State) :
    ((s.account input r).retire inputFrameCount buff rest).queue.length ≤ s.queue.length := by
  unfold State.retire
  split <;> simp [State.account,hq]

structure Written (inputFrameCount maxFrameCount : ℕ) (s : State speex) (dest : List α) (pos : ℕ) (ys : List α)
    (w : Write speex) : Prop where
  valid : Valid inputFrameCount w.resampler
  given : w.resampler.given = s.given
  allocated : w.resampler.allocated = s.allocated
  queue : w.resampler.queue.length ≤ s.queue.length
  produced : w.resampler.produced = s.produced ++ ys
  length : ys.length = w.count*inputChannels
  dest : w.dest = Buffer.splice dest pos ys
  pos : w.pos = pos+ys.length
  count : w.count ≤ maxFrameCount

theorem Written.room {maxFrameCount : ℕ} {s : State speex} {dest : List α} {pos : ℕ} {ys : List α} {w : Write speex}
    (h : Written inputFrameCount maxFrameCount s dest pos ys w) (hroom : pos+maxFrameCount*inputChannels ≤ dest.length) :
    pos+ys.length ≤ dest.length ∧ w.pos+(maxFrameCount-w.count)*inputChannels ≤ w.dest.length := by
  have hle : ys.length ≤ maxFrameCount*inputChannels := h.length ▸ Nat.mul_le_mul_right _ h.count
  have hfits : pos+ys.length ≤ dest.length := by omega
  refine ⟨hfits,?_⟩
  rw [h.pos,h.dest,Buffer.length_splice _ hfits,Nat.sub_mul,← h.length]
  omega

/-- A call of speex uses up the block or fills the room. -/
theorem Valid.rank_lt {s : State speex} (hs : Valid inputFrameCount s) (hchannels : 1 ≤ inputChannels) {buff : Block α}
    {rest : List (Block α)} (hq : s.queue = buff :: rest) {count maxFrameCount : ℕ} (hcount : count < maxFrameCount)
    {input : List α} {r : Processed α speex.State}
    (hlimit : r.consumed = inputFrameCount-s.offset/inputChannels ∨ r.produced = maxFrameCount-count) :
    ((s.account input r).retire inputFrameCount buff rest).queue.length+(maxFrameCount-(count+r.produced)) <
      s.queue.length+(maxFrameCount-count) := by
  have hle := length_queue_retire inputFrameCount hq input r
  rcases hlimit with hall | hfull
  · have hretire : (s.account input r).offset = inputFrameCount*inputChannels := by
      rw [← hs.data buff (by simp [hq]),← (hs.offered hq hchannels).1,← hall]
      rfl
    rw [State.retire,if_pos hretire,hq,List.length_cons]
    dsimp only
    omega
  · rw [hfull]
    omega

theorem Written.round {maxFrameCount : ℕ} {s : State speex} {dest : List α} {pos : ℕ} {ys : List α} {w : Write speex}
    (h : Written inputFrameCount maxFrameCount s dest pos ys w) (hchannels : 1 ≤ inputChannels)
    (hroom : pos+maxFrameCount*inputChannels ≤ dest.length) (hcount : w.count < maxFrameCount)
    (hqueue : w.resampler.queue.isEmpty = false) :
    Ends (w.round inputFrameCount maxFrameCount) fun w' =>
      (∃ zs, Written inputFrameCount maxFrameCount s dest pos zs w') ∧
      w'.resampler.queue.length+(maxFrameCount-w'.count) < w.resampler.queue.length+(maxFrameCount-w.count) := by
  cases hq : w.resampler.queue with
  | nil => simp [hq] at hqueue
  | cons buff rest =>
    obtain ⟨hend,hslice⟩ := h.valid.offered hq hchannels
    obtain ⟨hfits,hspace⟩ := h.room hroom
    rw [Write.round,hq]
    refine (Buffer.region_returns hend.le).then ((Buffer.region_returns hspace).then ?_)
    rw [hslice]
    have hinput : (buff.data.drop w.resampler.offset).length =
        (inputFrameCount-w.resampler.offset/inputChannels)*inputChannels := by
      rw [List.length_drop]
      omega
    have hlength := speex.length_samples w.resampler.spxResampler _ _ (maxFrameCount-w.count) hinput
    have hproduced := speex.produced_le w.resampler.spxResampler _ _ (maxFrameCount-w.count) hinput
    have hlimit := speex.limit w.resampler.spxResampler _ _ (maxFrameCount-w.count) hinput
    have hvalid := h.valid.account hq hchannels (maxFrameCount-w.count) rfl
    generalize speex.process w.resampler.spxResampler (buff.data.drop w.resampler.offset)
      (inputFrameCount-w.resampler.offset/inputChannels) (maxFrameCount-w.count) = r at *
    have hstore : w.pos+r.samples.length ≤ w.dest.length := by
      rw [hlength]
      exact (Nat.add_le_add_left (Nat.mul_le_mul_right _ hproduced) _).trans hspace
    refine (Buffer.store_returns hstore).then (.pure ⟨⟨ys ++ r.samples,?_⟩,?_⟩)
    · exact {
        valid := hvalid
        given := by simp [State.account,h.given]
        allocated := by simp [State.account,h.allocated]
        queue := (length_queue_retire inputFrameCount hq _ r).trans h.queue
        produced := by simp [State.account,h.produced]
        length := by rw [List.length_append,h.length,hlength,Nat.add_mul]
        dest := by dsimp only; rw [h.dest,h.pos,Buffer.splice_append _ _ hfits]
        pos := by dsimp only; rw [h.pos,List.length_append,hlength,Nat.add_assoc]
        count := by dsimp only; omega }
    · rw [← hq]
      exact h.valid.rank_lt hchannels hq hcount hlimit

theorem modify_take_map (f : α → α) (ys : List α) {i : ℕ} (hi : i < ys.length) :
    ((ys.take i).map f ++ ys.drop i).modify i f = (ys.take (i+1)).map f ++ ys.drop (i+1) := by
  have hlen : ((ys.take i).map f).length = i := by simp; omega
  apply List.ext_getElem?
  intro j
  rw [List.getElem?_modify,List.getElem?_append,List.getElem?_append,hlen]
  rcases lt_trichotomy j i with h | rfl | h
  · simp [h,show i ≠ j by omega,show j < i+1 by omega,show j < ys.length by omega]
  · simp [hi]
  · simp only [show ¬ j < i by omega,show i ≠ j by omega,if_false,List.length_map,List.length_take,
      Nat.min_eq_left (Nat.succ_le_of_lt hi),show ¬ j < i+1 by omega,List.getElem?_drop]
    simp [show i+(j-i) = j by omega,show i+1+(j-(i+1)) = j by omega]

theorem attenuate_returns [Mul α] (lit : ℚ → α) (dest : List α) {pos : ℕ} (ys : List α)
    (h : pos+ys.length ≤ dest.length) :
    Returns (attenuate lit (Buffer.splice dest pos ys) pos ys.length)
      (Buffer.splice dest pos (ys.map (· * lit 0.94))) := by
  let f : α → α := (· * lit 0.94)
  let I : ℕ → List α → Prop := fun i d => d = Buffer.splice dest pos ((ys.take i).map f ++ ys.drop i)
  have hloop : Ends (attenuate lit (Buffer.splice dest pos ys) pos ys.length) (I ys.length) := by
    refine .forLoop I (by simp [I]) ?_
    rintro i d hi rfl
    have hlen : ((ys.take i).map f ++ ys.drop i).length = ys.length := by simp; omega
    refine (Buffer.modify_returns _ ?_).ends ?_
    · rw [Buffer.length_splice _ (by omega)]
      omega
    · rw [Buffer.modify_splice _ _ _ _ (by omega) (by omega)]
      exact congrArg _ (modify_take_map f ys hi)
  refine (hloop.imp fun d hd => ?_).returns
  rw [hd]
  simp [f]

/-- A call of `write`: it stores new output of speex, attenuated, and comes back short
only when it has used up all the input. -/
theorem write_ends [Mul α] (lit : ℚ → α) {s : State speex} (hs : Valid inputFrameCount s) (hchannels : 1 ≤ inputChannels)
    {dest : List α} {pos maxFrameCount : ℕ} (hroom : pos+maxFrameCount*inputChannels ≤ dest.length) :
    Ends (s.write inputFrameCount lit dest pos maxFrameCount) fun w =>
      Valid inputFrameCount w.resampler ∧ w.resampler.given = s.given ∧ w.resampler.allocated = s.allocated ∧
      w.resampler.queue.length ≤ s.queue.length ∧ w.count ≤ maxFrameCount ∧ (w.count < maxFrameCount → w.resampler.queue = []) ∧
      ∃ ys, w.resampler.produced = s.produced ++ ys ∧ ys.length = w.count*inputChannels ∧
        w.dest = Buffer.splice dest pos (ys.map (· * lit 0.94)) := by
  have hstart : Written inputFrameCount maxFrameCount s dest pos [] ⟨s,dest,pos,0⟩ := {
    valid := hs
    given := rfl
    allocated := rfl
    queue := le_rfl
    produced := by simp
    length := by simp
    dest := (Buffer.splice_nil _ _).symm
    pos := rfl
    count := Nat.zero_le _ }
  refine (Ends.whileLoop (fun w => ∃ ys, Written inputFrameCount maxFrameCount s dest pos ys w)
    (fun w => w.resampler.queue.length+(maxFrameCount-w.count)) ⟨[],hstart⟩ ?_).bind ?_
  · rintro w ⟨ys,h⟩ ⟨hcount,hqueue⟩
    exact h.round hchannels hroom hcount hqueue
  · rintro w ⟨⟨ys,h⟩,hstop⟩
    have hpos : w.pos-w.count*inputChannels = pos := by rw [h.pos,h.length]; omega
    dsimp only
    rw [hpos,h.dest,← h.length]
    refine (attenuate_returns lit dest ys (h.room hroom).1).then (.pure ?_)
    refine ⟨h.valid,h.given,h.allocated,h.queue,h.count,fun hlt => ?_,ys,h.produced,h.length,rfl⟩
    by_contra hne
    exact hstop ⟨hlt,by simpa using hne⟩

/-- A filled buffer at the end of the queue. -/
theorem Valid.enqueue {s : State speex} (hs : Valid inputFrameCount s) (buff : Block α) (rest : List (Block α))
    {allocated : ℕ} (hsize : buff.data.length = inputFrameCount*inputChannels) (hserial : buff.serial = s.given.length)
    (hrest : ∀ b ∈ rest, b ∈ s.doneQueue)
    (haddresses : ((s.queue ++ [buff] ++ rest).map Block.address).Perm (List.range allocated)) :
    Valid inputFrameCount { s with
      queue := s.queue ++ [buff], doneQueue := rest, allocated := allocated, given := s.given ++ [buff.data] } where
  data b hb := by
    simp only [List.append_assoc,List.mem_append,List.mem_singleton] at hb
    rcases hb with hb | rfl | hb
    · exact hs.data b (List.mem_append_left _ hb)
    · exact hsize
    · exact hs.data b (List.mem_append_right _ (hrest b hb))
  offset := hs.offset
  idle h := by simp at h
  flow := by
    dsimp only
    rw [List.flatten_append,hs.flow,List.flatMap_append,List.drop_append_of_le_length hs.offset_le]
    simp
  given xs hxs := by
    rcases List.mem_append.mp hxs with hxs | hxs
    · exact hs.given xs hxs
    · rw [List.mem_singleton.mp hxs,hsize]
  serials := by
    have hlen : s.given.length+1-(s.queue.length+1) = s.given.length-s.queue.length := by omega
    have hlast : s.given.length-s.queue.length+1*s.queue.length = s.given.length := by
      have := hs.queued
      omega
    dsimp only
    rw [List.map_append,hs.serials,List.length_append,List.length_append,List.length_singleton,List.length_singleton,
      hlen,List.range'_concat,hlast,List.map_singleton,hserial]
  queued := by simpa using hs.queued
  filled b hb := by
    have hold (h : s.given[b.serial]? = some b.data) : (s.given ++ [buff.data])[b.serial]? = some b.data := by
      rw [List.getElem?_append_left (List.getElem?_eq_some_iff.mp h).1,h]
    simp only [List.append_assoc,List.mem_append,List.mem_singleton] at hb
    rcases hb with hb | rfl | hb
    · exact hold (hs.filled b (List.mem_append_left _ hb))
    · simp [hserial]
    · exact hold (hs.filled b (List.mem_append_right _ (hrest b hb)))
  done b hb := hs.done b (hrest b hb)
  addresses := haddresses
  reached rest' := by
    dsimp only
    rw [List.flatten_append,Stream'.append_append_stream]
    exact hs.reached _

/-- A call of `read`: the block is queued in a new buffer, or in one whose samples
have all been consumed and which is not queued. -/
theorem Valid.read [Zero α] {s : State speex} (hs : Valid inputFrameCount s) {source : List α}
    (hsource : inputFrameCount*inputChannels ≤ source.length) :
    Ends (s.read inputFrameCount source) fun t => Valid inputFrameCount t ∧
      t.given = s.given ++ [source.take (inputFrameCount*inputChannels)] ∧
      t.consumed = s.consumed ∧ t.produced = s.produced ∧ t.spxResampler = s.spxResampler ∧
      ∃ b, t.queue = s.queue ++ [b] ∧ b.address ∉ s.queue.map Block.address ∧
        (s.doneQueue = [] ∧ b.address = s.allocated ∧ t.allocated = s.allocated+1 ∨ t.allocated = s.allocated ∧
          ∃ old ∈ s.doneQueue, old.address = b.address ∧
            (old.serial+1)*(inputFrameCount*inputChannels) ≤ s.consumed.length) := by
  have hregion : 0+inputChannels*inputFrameCount ≤ source.length := by rw [Nat.mul_comm,Nat.zero_add]; exact hsource
  have hblock : Buffer.slice source 0 (inputChannels*inputFrameCount) = source.take (inputFrameCount*inputChannels) := by
    rw [Buffer.slice,List.drop_zero,Nat.mul_comm]
  have hlen : (source.take (inputFrameCount*inputChannels)).length = inputFrameCount*inputChannels := by
    rw [List.length_take,Nat.min_eq_left hsource]
  have hstore {xs : List α} (h : xs.length = inputFrameCount*inputChannels) :
      (Buffer.store xs 0 (source.take (inputFrameCount*inputChannels)) : Program Empty (List α)).Returns
        (source.take (inputFrameCount*inputChannels)) := by
    have hroom : 0+(source.take (inputFrameCount*inputChannels)).length ≤ xs.length := by omega
    have hall := Buffer.splice_all xs (hlen.trans h.symm)
    exact ((Buffer.store_returns hroom).ends hall).returns
  have haddresses := hs.addresses
  unfold State.read State.takeBuffer
  cases hdone : s.doneQueue with
  | nil =>
    rw [hdone,List.append_nil] at haddresses
    refine (Buffer.region_returns hregion).then ?_
    rw [hblock]
    refine (hstore List.length_replicate).then (.pure ⟨?_,rfl,rfl,rfl,rfl,_,rfl,?_,Or.inl ⟨rfl,rfl,rfl⟩⟩)
    · refine hs.enqueue ⟨s.allocated,_,s.given.length⟩ [] hlen rfl (by simp) ?_
      rw [List.append_nil,List.map_append,List.range_succ]
      exact haddresses.append_right _
    · intro hmem
      simpa using haddresses.mem_iff.mp hmem
  | cons old rest =>
    have hmem : old ∈ s.doneQueue := by simp [hdone]
    refine (Buffer.region_returns hregion).then ?_
    rw [hblock]
    refine (hstore (hs.data old (List.mem_append_right _ hmem))).then (.pure ⟨?_,rfl,rfl,rfl,rfl,_,rfl,?_,
      Or.inr ⟨rfl,old,by simp,rfl,hs.done old hmem⟩⟩)
    · refine hs.enqueue { old with serial := s.given.length, data := _ } rest hlen rfl
        (fun b hb => by simp [hdone,hb]) ?_
      rw [hdone] at haddresses
      simpa using haddresses
    · rw [hdone] at haddresses
      have hnodup := haddresses.nodup_iff.mpr List.nodup_range
      rw [List.map_append,List.map_cons] at hnodup
      intro hin
      exact (List.nodup_append.mp hnodup).2.2 _ hin _ (by simp) rfl

inductive Call (α : Type)
  | read (source : List α)
  | write (dest : List α) (pos maxFrameCount : ℕ)

def Call.Fits (inputFrameCount inputChannels : ℕ) : Call α → Prop
  | .read source => inputFrameCount*inputChannels ≤ source.length
  | .write dest pos maxFrameCount => pos+maxFrameCount*inputChannels ≤ dest.length

def Call.block (inputFrameCount inputChannels : ℕ) : Call α → Option (List α)
  | .read source => some (source.take (inputFrameCount*inputChannels))
  | .write _ _ _ => none

structure Session (speex : Speex α inputChannels) where
  resampler : State speex
  returned : List α

def Session.call [Zero α] [Mul α] (inputFrameCount : ℕ) (lit : ℚ → α) (t : Session speex) : Call α → Program Empty (Session speex)
  | .read source => do return { t with resampler := ← t.resampler.read inputFrameCount source }
  | .write dest pos maxFrameCount => do
    let w ← t.resampler.write inputFrameCount lit dest pos maxFrameCount
    return ⟨w.resampler,t.returned ++ Buffer.slice w.dest pos (w.count*inputChannels)⟩

def Session.calls [Zero α] [Mul α] (inputFrameCount : ℕ) (lit : ℚ → α) (t : Session speex) (cs : List (Call α)) :
    Program Empty (Session speex) := cs.foldlM (fun t c => t.call inputFrameCount lit c) t

section Session

variable [Zero α] [Mul α] (lit : ℚ → α)

structure Session.Faithful (inputFrameCount : ℕ) (blocks : List (List α)) (t : Session speex) : Prop where
  valid : Valid inputFrameCount t.resampler
  given : t.resampler.given = blocks
  returned : t.returned = t.resampler.produced.map (· * lit 0.94)

theorem Session.Faithful.call {blocks : List (List α)} {t : Session speex} (ht : t.Faithful lit inputFrameCount blocks)
    (hchannels : 1 ≤ inputChannels) {c : Call α} (hc : c.Fits inputFrameCount inputChannels) :
    Ends (t.call inputFrameCount lit c)
      (Session.Faithful lit inputFrameCount (blocks ++ (c.block inputFrameCount inputChannels).toList)) := by
  cases c with
  | read source =>
    refine (ht.valid.read hc).bind fun u ⟨hu,hgiven,_,hproduced,_⟩ => .pure ⟨hu,?_,?_⟩
    · rw [hgiven,ht.given]
      rfl
    · dsimp only
      rw [hproduced,ht.returned]
  | write dest pos maxFrameCount =>
    refine (write_ends lit ht.valid hchannels hc).bind fun w ⟨hw,hgiven,_,_,hcount,_,ys,hproduced,hlen,hdest⟩ => ?_
    have hle : w.count*inputChannels ≤ maxFrameCount*inputChannels := Nat.mul_le_mul_right _ hcount
    have hfits : pos+(ys.map (· * lit 0.94)).length ≤ dest.length := by
      rw [List.length_map,hlen]
      exact (Nat.add_le_add_left hle _).trans hc
    refine .pure ⟨hw,?_,?_⟩
    · rw [hgiven,ht.given]
      simp [Call.block]
    · dsimp only
      rw [hproduced,List.map_append,ht.returned,hdest,← hlen,← List.length_map (· * lit 0.94),
        Buffer.slice_splice _ hfits]

theorem Session.Faithful.calls (hchannels : 1 ≤ inputChannels) {cs : List (Call α)}
    (hcs : ∀ c ∈ cs, c.Fits inputFrameCount inputChannels) {blocks : List (List α)} {t : Session speex}
    (ht : t.Faithful lit inputFrameCount blocks) :
    Ends (t.calls inputFrameCount lit cs)
      (Session.Faithful lit inputFrameCount (blocks ++ cs.filterMap (Call.block inputFrameCount inputChannels))) := by
  induction cs generalizing blocks t with
  | nil =>
    rw [List.filterMap_nil,List.append_nil]
    exact .pure ht
  | cons c cs ih =>
    have hrest := fun d hd => hcs d (List.mem_cons_of_mem _ hd)
    refine (ht.call lit hchannels (hcs c List.mem_cons_self)).bind fun u hu => ?_
    refine (ih hrest hu).imp fun v hv => ?_
    have hblocks : (c :: cs).filterMap (Call.block inputFrameCount inputChannels) =
        (c.block inputFrameCount inputChannels).toList ++ cs.filterMap (Call.block inputFrameCount inputChannels) := by
      cases h : c.block inputFrameCount inputChannels <;> simp [h]
    rwa [hblocks,← List.append_assoc]

/-- Any sequence of calls runs to its end. Then speex has consumed a prefix of the
blocks given, and the frames returned are all that it has produced, attenuated once;
the next `read` takes a new buffer or one that is not queued and was consumed, and the
next `write` comes back short only when nothing is left to consume. -/
theorem resampler_streams {speex : Speex α inputChannels} (hframes : 1 ≤ inputFrameCount) (hchannels : 1 ≤ inputChannels)
    (cs : List (Call α)) (hcs : ∀ c ∈ cs, c.Fits inputFrameCount inputChannels) :
    Ends (Session.calls inputFrameCount lit ⟨create speex,[]⟩ cs) fun t =>
      t.resampler.given = cs.filterMap (Call.block inputFrameCount inputChannels) ∧
      (∀ rest : Stream' α, speex.Reached (t.resampler.given.flatten ++ₛ rest) t.resampler.spxResampler
        t.resampler.consumed.length t.resampler.produced) ∧
      t.resampler.consumed <+: t.resampler.given.flatten ∧
      t.returned = t.resampler.produced.map (· * lit 0.94) ∧
      (∀ source, inputFrameCount*inputChannels ≤ source.length →
        Ends (t.resampler.read inputFrameCount source) fun u => ∃ b, u.queue = t.resampler.queue ++ [b] ∧
          b.address ∉ t.resampler.queue.map Block.address ∧
          (b.address = t.resampler.allocated ∨ ∃ old ∈ t.resampler.doneQueue, old.address = b.address ∧
            t.resampler.given[old.serial]? = some old.data ∧
            (old.serial+1)*(inputFrameCount*inputChannels) ≤ t.resampler.consumed.length)) ∧
      ∀ dest pos maxFrameCount, pos+maxFrameCount*inputChannels ≤ dest.length →
        Ends (t.resampler.write inputFrameCount lit dest pos maxFrameCount) fun w => w.count ≤ maxFrameCount ∧
          (w.count < maxFrameCount → w.resampler.consumed = t.resampler.given.flatten) := by
  have hstart : Session.Faithful lit inputFrameCount [] ⟨create speex,[]⟩ := ⟨create_valid hframes,rfl,rfl⟩
  refine (hstart.calls lit hchannels hcs).imp fun t ht => ⟨by simpa using ht.given,ht.valid.reached,
    ht.valid.consumed_prefix,ht.returned,fun source hsource => ?_,fun dest pos maxFrameCount hroom => ?_⟩
  · refine (ht.valid.read hsource).imp fun u ⟨_,_,_,_,_,b,hqueue,hfree,hold⟩ => ⟨b,hqueue,hfree,?_⟩
    rcases hold with ⟨_,hnew,_⟩ | ⟨_,old,hmem,haddress,hdone⟩
    · exact Or.inl hnew
    · exact Or.inr ⟨old,hmem,haddress,ht.valid.filled old (List.mem_append_right _ hmem),hdone⟩
  · refine (write_ends lit ht.valid hchannels hroom).imp fun w ⟨hw,hgiven,_,_,hcount,hshort,_⟩ => ⟨hcount,fun hlt => ?_⟩
    rw [hw.consumed_of_queue_nil (hshort hlt),hgiven]

/-- A block of two frames, asked for at twice the rate in two calls, the first of which
ends inside a frame. -/
def twoFrames : Program Empty (Session (twofold ℚ 1)) :=
  Session.calls 2 id ⟨create (twofold ℚ 1),[]⟩ [.read [1,2],.write [7,8,9] 0 3,.write [7,8,9] 0 3]

theorem resampler_streams_counting : ∃ t, Returns twoFrames t ∧
    t.resampler.given = [[1,2]] ∧ t.returned = [0.94,0.94,1.88,1.88] := by
  have hends : Ends twoFrames _ := resampler_streams id (by decide) (by decide) _ (by simp [Call.Fits])
  obtain ⟨t,ht,hgiven,-,-,hreturned,-⟩ := hends
  have hrun : ∃ u, Returns twoFrames u ∧ u.resampler.produced = [1,1,2,2] := ⟨_,⟨40,rfl⟩,rfl⟩
  obtain ⟨u,hu,hproduced⟩ := hrun
  refine ⟨t,ht,hgiven,?_⟩
  rw [hreturned,ht.unique hu,hproduced]
  norm_num

end Session

section Twofold

def doubled (channels : ℕ) (x : Stream' α) : Stream' α := fun i => x.get (i/channels/2*channels+i%channels)

theorem take_frames (x : Stream' α) (pos q channels : ℕ) :
    (x.drop pos).take (q*channels) = (List.range q).flatMap fun i => (x.drop (pos+i*channels)).take channels := by
  induction q with
  | zero => simp
  | succ q ih =>
    rw [Nat.succ_mul,Stream'.take_add,ih,Stream'.drop_drop,List.range_succ,List.flatMap_append,List.flatMap_singleton]

theorem take_doubled {channels : ℕ} (hchannels : 1 ≤ channels) (x : Stream' α) (k : ℕ) :
    ((doubled channels x).drop (k*channels)).take channels = (x.drop (k/2*channels)).take channels := by
  apply List.ext_getElem (by simp)
  intro i hi _
  have hlt : i < channels := by simpa using hi
  have hdiv : (k*channels+i)/channels = k := by
    rw [Nat.add_comm,Nat.add_mul_div_right _ _ hchannels,Nat.div_eq_of_lt hlt,Nat.zero_add]
  rw [Stream'.take_get,Stream'.take_get,Stream'.get_drop,Stream'.get_drop]
  change x.get _ = _
  rw [hdiv,Nat.mul_add_mod_of_lt hlt]

/-- After `k` frames of output half of them have been consumed, rounded down. -/
theorem twofold_reached {channels : ℕ} (hchannels : 1 ≤ channels) {input : Stream' α} {s : (twofold α channels).State}
    {m : ℕ} {ys : List α} (h : (twofold α channels).Reached input s m ys) :
    ∃ k, m = k/2*channels ∧ s = Fin.ofNat 2 k ∧ ys = (doubled channels input).take (k*channels) := by
  induction h with
  | initial => exact ⟨0,by simp,rfl,by simp⟩
  | @process s m ys h n room r hr ih =>
    obtain ⟨k,rfl,rfl,rfl⟩ := ih
    have hlt : k%2 < 2 := Nat.mod_lt k two_pos
    have hslice : ∀ i ∈ List.range (min room (2*n-k%2)),
        Buffer.slice ((input.drop (k/2*channels)).take (n*channels)) ((k%2+i)/2*channels) channels =
          ((doubled channels input).drop (k*channels+i*channels)).take channels := by
      intro i hi
      have hi := List.mem_range.mp hi
      have hfit : (k%2+i)/2*channels+channels ≤ n*channels := by
        rw [← Nat.succ_mul]
        exact Nat.mul_le_mul_right _ (by omega)
      have hhalf : k/2+(k%2+i)/2 = (k+i)/2 := by omega
      rw [BlockStream.slice_take _ hfit,Stream'.drop_drop,← Nat.add_mul,hhalf,← Nat.add_mul,take_doubled hchannels]
    refine ⟨k+min room (2*n-k%2),?_,?_,?_⟩
    · have hhalf : (k+min room (2*n-k%2))/2 = k/2+(k%2+min room (2*n-k%2))/2 := by omega
      rw [hr,hhalf,Nat.add_mul]
      rfl
    · rw [hr]
      apply Fin.ext
      change (k%2+min room (2*n-k%2))%2 = (k+min room (2*n-k%2))%2
      omega
    · have hsamples := (take_frames (doubled channels input) (k*channels) (min room (2*n-k%2)) channels).trans
        (List.flatMap_congr hslice).symm
      rw [Nat.add_mul,Stream'.take_add,hsamples,hr]
      rfl

theorem twofold_streams {channels : ℕ} (hchannels : 1 ≤ channels) (sr : ℕ) :
    (twofold α channels).Streams sr (2*sr) (doubled channels) where
  output h := by
    obtain ⟨k,_,_,rfl⟩ := twofold_reached hchannels h
    rw [Stream'.length_take]
  ahead h := by
    obtain ⟨k,rfl,_,rfl⟩ := twofold_reached hchannels h
    rw [Stream'.length_take]
    calc k/2*channels*(2*sr) = k/2*2*channels*sr := by ring
      _ ≤ k*channels*sr := Nat.mul_le_mul_right _ (Nat.mul_le_mul_right _ (Nat.div_mul_le_self k 2))

end Twofold

end Resampler
end AudioOutput
