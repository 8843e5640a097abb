import AudioOutput.SpeexKernels
import AudioOutput.SpeexLanes
import AudioOutput.SpeexStreams

/-!
# The memory of speex

The functions of `speex_resampler.c` on the memory that the channels share: each has its
own part of `mem`, reads its samples from the interleaved input and stores its outputs
in the interleaved output. Channel by channel this is what the joint resampler does
with whole frames.
-/

namespace AudioOutput
namespace SpeexMemory

open Program Buffer SpeexResampler

/-- `last_sample` and `samp_frac_num`, and `magic_samples`, of one channel. -/
structure Channel where
  counter : Counter
  magicSamples : ℕ

structure State (K : Type) where
  channels : List Channel
  mem : List K
  inStride : ℕ
  outStride : ℕ

structure Basic (K : Type) where
  outSample : ℕ
  counter : Counter
  out : List K

/-- What a call has done: the two lengths it writes back, the state and the output. -/
structure Done (K : Type) where
  consumed : ℕ
  produced : ℕ
  state : State K
  out : List K

/-- Locals of `speex_resampler_process_float`; `inPos` and `outPos` are where `in` and `out` point. -/
structure Call (K : Type) where
  state : State K
  out : List K
  ilen : ℕ
  olen : ℕ
  inPos : ℕ
  outPos : ℕ

variable {K : Type} [Field K] (u : Setup K)

def memAllocSize : ℕ := u.filtLen-1+160

/-- `resampler_basic_*` for the channel whose memory starts at `p`. -/
def resamplerBasic (outStride : ℕ) (mem : List K) (p inLen pos outLen : ℕ) (b : Basic K) : Program Empty (Basic K) :=
  whileLoop (fun b => b.counter.lastSample < inLen ∧ b.outSample < outLen) (fun b => do
    let sum ← u.output mem (p+b.counter.lastSample) b.counter.sampFracNum
    let out ← put b.out (pos+b.outSample*outStride) sum
    return ⟨b.outSample+1,b.counter.advance u.filter,out⟩) b

def processNative (s : State K) (channelIndex inLen : ℕ) (out : List K) (pos outLen : ℕ) : Program Empty (Done K) := do
  let p := channelIndex*memAllocSize u
  let c ← load s.channels channelIndex
  let b ← resamplerBasic u s.outStride s.mem p inLen pos outLen ⟨0,c.counter,out⟩
  let consumed := if b.counter.lastSample < inLen then b.counter.lastSample else inLen
  let channels ← put s.channels channelIndex ⟨⟨b.counter.lastSample-consumed,b.counter.sampFracNum⟩,c.magicSamples⟩
  let mem ← forLoop (u.filtLen-1) (fun j mem => do put mem (p+j) (← load mem (p+j+consumed))) s.mem
  return ⟨consumed,b.outSample,{ s with channels := channels, mem := mem },b.out⟩

def magic (s : State K) (channelIndex : ℕ) (out : List K) (pos outLen : ℕ) : Program Empty (Done K) := do
  let p := channelIndex*memAllocSize u+(u.filtLen-1)
  let c ← load s.channels channelIndex
  let r ← processNative u s channelIndex c.magicSamples out pos outLen
  let c ← load r.state.channels channelIndex
  let left := c.magicSamples-r.consumed
  let channels ← put r.state.channels channelIndex { c with magicSamples := left }
  let mem ← forLoop left (fun j mem => do put mem (p+j) (← load mem (p+j+r.consumed))) r.state.mem
  return { r with state := { r.state with channels := channels, mem := mem } }

/-- `in` may be null, and is silence then. -/
def sample (input : Option (List K)) (i : ℕ) : Program Empty K :=
  match input with
  | some xs => load xs i
  | none => pure 0

/-- A round of the loop in `speex_resampler_process_float`. -/
def Call.round (channelIndex : ℕ) (input : Option (List K)) (c : Call K) : Program Empty (Call K) := do
  let p := channelIndex*memAllocSize u+(u.filtLen-1)
  let xlen := memAllocSize u-(u.filtLen-1)
  let ichunk := if xlen < c.ilen then xlen else c.ilen
  let mem ← forLoop ichunk (fun j mem => do put mem (p+j) (← sample input (c.inPos+j*c.state.inStride))) c.state.mem
  let r ← processNative u { c.state with mem := mem } channelIndex ichunk c.out c.outPos c.olen
  return ⟨r.state,r.out,c.ilen-r.consumed,c.olen-r.produced,c.inPos+r.consumed*c.state.inStride,
    c.outPos+r.produced*c.state.outStride⟩

def processFloat (s : State K) (channelIndex : ℕ) (input : Option (List K)) (inPos ilen : ℕ) (out : List K)
    (outPos olen : ℕ) : Program Empty (Done K) := do
  let c ← load s.channels channelIndex
  let r ← if c.magicSamples ≠ 0 then magic u s channelIndex out outPos olen else pure ⟨0,0,s,out⟩
  let c ← load r.state.channels channelIndex
  let start : Call K := ⟨r.state,r.out,ilen,olen-r.produced,inPos,outPos+r.produced*s.outStride⟩
  let t ← if c.magicSamples = 0 then
      whileLoop (fun t : Call K => t.ilen ≠ 0 ∧ t.olen ≠ 0) (Call.round u channelIndex input) start
    else pure start
  return ⟨ilen-t.ilen,olen-t.olen,t.state,t.out⟩

def processInterleavedFloat (s : State K) (input : Option (List K)) (inLen : ℕ) (out : List K) (outLen : ℕ) :
    Program Empty (Done K) := do
  let strided : State K := { s with inStride := u.nbChannels, outStride := u.nbChannels }
  let r ← forLoop u.nbChannels (fun i r => processFloat u r.state i input i inLen r.out i outLen)
    ⟨inLen,outLen,strided,out⟩
  return { r with state := { r.state with inStride := s.inStride, outStride := s.outStride } }

omit [Field K] in
theorem advance_frac {f : Filter K 1} {p : Counter} (h : p.sampFracNum < f.denRate) : (p.advance f).sampFracNum < f.denRate := by
  have hmod := Nat.mod_lt f.numRate f.denRate_pos
  unfold Counter.advance
  dsimp only
  split <;> dsimp only <;> omega

omit [Field K] in
theorem lastSample_lt {f : Filter K 1} {inLen outLen : ℕ} {p q : Counter}
    (h : q ∈ (SpeexResampler.resamplerBasic f inLen outLen p).1) : q.lastSample < inLen := by
  induction outLen generalizing p with
  | zero => simp [SpeexResampler.resamplerBasic] at h
  | succ outLen ih =>
    rw [SpeexResampler.resamplerBasic] at h
    split at h
    · rcases List.mem_cons.mp h with rfl | hmem
      · assumption
      · exact ih hmem
    · simp at h

variable {u} {s : State K} {i inLen outLen pos : ℕ} {out : List K}

def outputs (u : Setup K) (mem : List K) (p : ℕ) (qs : List Counter) : List K :=
  qs.map fun q => u.value q.sampFracNum (slice mem (p+q.lastSample) u.filtLen)

/-- The loop computes the outputs at the counters that the resampler of one channel goes
through, and stores them one stride after the other. -/
theorem resamplerBasic_returns {mem : List K} {p outStride : ℕ} {c : Counter} (hmem : p+(u.filtLen-1)+inLen ≤ mem.length)
    (hfrac : c.sampFracNum < u.denRate) (hout : ∀ k < outLen, pos+k*outStride < out.length) :
    let r := SpeexResampler.resamplerBasic u.filter inLen outLen c
    (resamplerBasic u outStride mem p inLen pos outLen ⟨0,c,out⟩).Returns
        ⟨r.1.length,r.2,scatter outStride out pos (outputs u mem p r.1)⟩ ∧ r.2.sampFracNum < u.denRate := by
  intro r
  let I (b : Basic K) : Prop := b.outSample ≤ outLen ∧ b.counter.sampFracNum < u.denRate ∧ ∃ done,
    done.length = b.outSample ∧ b.out = scatter outStride out pos (outputs u mem p done) ∧
    r = (done ++ (SpeexResampler.resamplerBasic u.filter inLen (outLen-b.outSample) b.counter).1,
      (SpeexResampler.resamplerBasic u.filter inLen (outLen-b.outSample) b.counter).2)
  have hloop : (resamplerBasic u outStride mem p inLen pos outLen ⟨0,c,out⟩).Ends fun b => I b ∧
      ¬ (b.counter.lastSample < inLen ∧ b.outSample < outLen) := by
    refine .whileLoop I (fun b => outLen-b.outSample) ⟨Nat.zero_le _,hfrac,[],rfl,rfl,rfl⟩ ?_
    rintro b ⟨-,hb,done,hlen,hstored,hr⟩ ⟨hlast,hroom⟩
    have hfilt := u.filtLen_pos
    have hput : (put b.out (pos+b.outSample*outStride) (u.value b.counter.sampFracNum
        (slice mem (p+b.counter.lastSample) u.filtLen)) : Program Empty (List K)).Returns _ :=
      put_returns _ (by rw [hstored,length_scatter]; exact hout _ hroom)
    refine (Setup.output_returns hb (by omega)).then (hput.then (.pure ?_))
    refine ⟨⟨hroom,advance_frac hb,done ++ [b.counter],by simp [hlen],?_,?_⟩,by dsimp only; omega⟩
    · simp only [hstored,outputs,List.map_append,scatter_append,List.length_map,hlen]
      rfl
    · have hsucc : outLen-b.outSample = (outLen-(b.outSample+1))+1 := by omega
      rw [hr,hsucc,SpeexResampler.resamplerBasic,if_pos hlast]
      simp
  obtain ⟨b,hb,⟨hle,hfracb,done,hlen,hstored,hr⟩,hstop⟩ := hloop
  have hlast : SpeexResampler.resamplerBasic u.filter inLen (outLen-b.outSample) b.counter = ([],b.counter) := by
    cases hroom : outLen-b.outSample with
    | zero => rfl
    | succ n => rw [SpeexResampler.resamplerBasic,if_neg fun h => hstop ⟨h,by omega⟩]
  rw [hlast,List.append_nil] at hr
  rw [hr]
  refine ⟨?_,hfracb⟩
  rw [hlen,← hstored]
  exact hb

/-- A call for one channel is a call of the resampler of that channel on its part of
the memory. -/
theorem processNative_returns {c : Channel} (hc : s.channels[i]? = some c) (hfrac : c.counter.sampFracNum < u.denRate)
    (hmem : i*memAllocSize u+(u.filtLen-1)+inLen ≤ s.mem.length)
    (hout : ∀ k < outLen, pos+k*s.outStride < out.length) (xs : List K) :
    let q := SpeexResampler.processNative u.filter ⟨c.counter,xs⟩
      (slice s.mem (i*memAllocSize u) (u.filtLen-1+inLen)) inLen outLen
    (processNative u s i inLen out pos outLen).Returns
        ⟨q.consumed,q.produced,{ s with
          channels := s.channels.set i ⟨q.state.counter,c.magicSamples⟩
          mem := splice s.mem (i*memAllocSize u) q.state.mem },scatter s.outStride out pos q.samples⟩ ∧
      q.state.counter.sampFracNum < u.denRate := by
  intro q
  obtain ⟨hbasic,hfrac'⟩ := resamplerBasic_returns hmem hfrac hout
  have hle : q.consumed ≤ inLen := (processNative_within (f := u.filter) ⟨c.counter,xs⟩ _ inLen outLen).consumed_le
  have hfilt := u.filtLen_pos
  have hsamples : outputs u s.mem (i*memAllocSize u) (SpeexResampler.resamplerBasic u.filter inLen outLen c.counter).1 =
      q.samples := by
    rw [outputs,List.map_eq_flatMap]
    refine List.flatMap_congr fun p hp => ?_
    have hlt := lastSample_lt hp
    have hwindow : p.lastSample+u.filtLen ≤ u.filtLen-1+inLen := by omega
    rw [← slice_slice s.mem hwindow]
    simp [Setup.filter]
  have hkept : slice s.mem (i*memAllocSize u+q.consumed) (u.filtLen-1) = q.state.mem := by
    have hfit : q.consumed+(u.filtLen-1) ≤ u.filtLen-1+inLen := by omega
    rw [← slice_slice s.mem hfit]
    exact congrArg₂ _ (Nat.mul_one _).symm (Nat.mul_one _).symm
  rw [← hsamples,← hkept]
  refine ⟨?_,hfrac'⟩
  have hi : i < s.channels.length := List.getElem?_eq_some_iff.mp hc |>.1
  have hmove : (forLoop (u.filtLen-1) (fun j mem => do
      put mem (i*memAllocSize u+j) (← load mem (i*memAllocSize u+j+q.consumed))) s.mem : Program Empty (List K)).Returns _ :=
    moveLoop_returns (by omega)
  exact (load_returns hc).bind (hbasic.bind ((put_returns _ hi).bind (hmove.bind (.pure _))))

structure Sized (u : Setup K) (s : State K) : Prop where
  channels : s.channels.length = u.nbChannels
  mem : s.mem.length = u.nbChannels*memAllocSize u

/-- Channel `i` is where the resampler of that channel is; there are no magic samples. -/
structure Holds (u : Setup K) (s : State K) (i : ℕ) (σ : SpeexResampler.State K) : Prop where
  channel : s.channels[i]? = some ⟨σ.counter,0⟩
  frac : σ.counter.sampFracNum < u.denRate
  mem : slice s.mem (i*memAllocSize u) (u.filtLen-1) = σ.mem

structure Only (u : Setup K) (i : ℕ) (s t : State K) : Prop where
  channels : ∀ j ≠ i, t.channels[j]? = s.channels[j]?
  mem : ∀ k, k < i*memAllocSize u ∨ (i+1)*memAllocSize u ≤ k → t.mem[k]? = s.mem[k]?
  length_channels : t.channels.length = s.channels.length
  length_mem : t.mem.length = s.mem.length
  inStride : t.inStride = s.inStride
  outStride : t.outStride = s.outStride

omit [Field K] in
theorem Only.refl (u : Setup K) (i : ℕ) (s : State K) : Only u i s s :=
  ⟨fun _ _ => rfl,fun _ _ => rfl,rfl,rfl,rfl,rfl⟩

omit [Field K] in
theorem Only.trans {s t r : State K} (h : Only u i s t) (h' : Only u i t r) : Only u i s r where
  channels j hj := (h'.channels j hj).trans (h.channels j hj)
  mem k hk := (h'.mem k hk).trans (h.mem k hk)
  length_channels := h'.length_channels.trans h.length_channels
  length_mem := h'.length_mem.trans h.length_mem
  inStride := h'.inStride.trans h.inStride
  outStride := h'.outStride.trans h.outStride

omit [Field K] in
theorem Only.sized {s t : State K} (h : Only u i s t) (hs : Sized u s) : Sized u t :=
  ⟨h.length_channels.trans hs.channels,h.length_mem.trans hs.mem⟩

omit [Field K] in
/-- The other channels stay where they are. -/
theorem Only.holds {s t : State K} (h : Only u i s t) {j : ℕ} (hj : j ≠ i) {σ : SpeexResampler.State K} (hσ : Holds u s j σ) :
    Holds u t j σ where
  channel := (h.channels j hj).trans hσ.channel
  frac := hσ.frac
  mem := by
    rw [← hσ.mem]
    apply List.ext_getElem?
    intro k
    rw [getElem?_slice,getElem?_slice]
    by_cases hk : k < u.filtLen-1
    · rw [if_pos hk,if_pos hk]
      refine h.mem _ ?_
      have halloc : k < memAllocSize u := by unfold memAllocSize; omega
      rcases Nat.lt_or_gt_of_ne hj with hlt | hgt
      · have hnext : (j+1)*memAllocSize u ≤ i*memAllocSize u := Nat.mul_le_mul_right _ hlt
        rw [Nat.succ_mul] at hnext
        omega
      · have hnext : (i+1)*memAllocSize u ≤ j*memAllocSize u := Nat.mul_le_mul_right _ hgt
        omega
    · rw [if_neg hk,if_neg hk]

omit [Field K] in
theorem Sized.room (hs : Sized u s) (hi : i < u.nbChannels) : i*memAllocSize u+(u.filtLen-1)+160 ≤ s.mem.length := by
  have hnext : (i+1)*memAllocSize u ≤ u.nbChannels*memAllocSize u := Nat.mul_le_mul_right _ hi
  rw [Nat.succ_mul] at hnext
  have hmem := hs.mem
  unfold memAllocSize at *
  omega

omit [Field K] in
theorem Holds.length_mem {σ : SpeexResampler.State K} (h : Holds u s i σ) (hs : Sized u s) (hi : i < u.nbChannels) :
    σ.mem.length = u.filtLen-1 := by
  have hroom := hs.room hi
  rw [← h.mem,length_slice _ (by omega)]

def Reads (input : Option (List K)) (inPos stride : ℕ) (xs : List K) : Prop :=
  ∀ j (hj : j < xs.length), (sample input (inPos+j*stride)).Returns xs[j]

structure Does (u : Setup K) (i : ℕ) (s : State K) (out : List K) (outPos : ℕ) (q : Resampler.Processed K (SpeexResampler.State K))
    (t : State K) (out' : List K) : Prop where
  holds : Holds u t i q.state
  only : Only u i s t
  out : out' = scatter s.outStride out outPos q.samples

theorem Call.round_ends {input : Option (List K)} {t : Call K} {σ : SpeexResampler.State K} {xs : List K}
    (hs : Sized u t.state) (hi : i < u.nbChannels) (hσ : Holds u t.state i σ) (hxs : xs.length = t.ilen)
    (hread : Reads input t.inPos t.state.inStride xs)
    (hout : ∀ k < t.olen, t.outPos+k*t.state.outStride < t.out.length) :
    let q := SpeexResampler.processNative u.filter σ (σ.mem ++ xs.take (min t.ilen xlen*1)) (min t.ilen xlen) t.olen
    (Call.round u i input t).Ends fun t' => Does u i t.state t.out t.outPos q t'.state t'.out ∧
      t'.ilen = t.ilen-q.consumed ∧ t'.olen = t.olen-q.produced ∧
      t'.inPos = t.inPos+q.consumed*t.state.inStride ∧ t'.outPos = t.outPos+q.produced*t.state.outStride := by
  intro q
  have hroom := hs.room hi
  have hlen := hσ.length_mem hs hi
  have hchunk : (if memAllocSize u-(u.filtLen-1) < t.ilen then memAllocSize u-(u.filtLen-1) else t.ilen) = min t.ilen xlen := by
    unfold memAllocSize xlen
    split <;> omega
  have hle : min t.ilen xlen ≤ 160 := min_le_right _ _
  have htake : (xs.take (min t.ilen xlen)).length = min t.ilen xlen := by
    rw [List.length_take,hxs]
    omega
  let p := i*memAllocSize u
  have hstore : (forLoop (min t.ilen xlen) (fun j mem => do
      put mem (p+(u.filtLen-1)+j) (← sample input (t.inPos+j*t.state.inStride))) t.state.mem : Program Empty (List K)).Returns
        (splice t.state.mem (p+(u.filtLen-1)) (xs.take (min t.ilen xlen))) := by
    refine storeLoop_returns htake (by omega) fun j hj => ?_
    rw [List.getElem_take]
    exact hread j _
  let mem := splice t.state.mem (p+(u.filtLen-1)) (xs.take (min t.ilen xlen))
  have hsize : mem.length = t.state.mem.length := length_splice _ (by omega)
  have hoffered : slice mem p (u.filtLen-1+min t.ilen xlen) = σ.mem ++ xs.take (min t.ilen xlen*1) := by
    have hbehind : slice mem p (u.filtLen-1+(xs.take (min t.ilen xlen)).length) =
        slice t.state.mem p (u.filtLen-1) ++ xs.take (min t.ilen xlen) := slice_splice_behind _ (by omega)
    rw [Nat.mul_one]
    rwa [htake,hσ.mem] at hbehind
  have hfit : i*memAllocSize u+(u.filtLen-1)+min t.ilen xlen ≤ mem.length := by omega
  obtain ⟨hnative,hfrac⟩ := processNative_returns (s := { t.state with mem := mem }) (c := ⟨σ.counter,0⟩) hσ.channel hσ.frac
    hfit hout σ.mem
  dsimp only at hnative hfrac
  rw [hoffered] at hnative hfrac
  have hkept : q.state.mem.length = u.filtLen-1 := by
    have hq : q.consumed ≤ min t.ilen xlen := (processNative_within σ _ _ _).consumed_le
    have hsize : q.consumed*1+(u.filtLen-1)*1 ≤ (σ.mem ++ xs.take (min t.ilen xlen*1)).length := by
      rw [List.length_append,hlen,Nat.mul_one,Nat.mul_one,Nat.mul_one,htake]
      omega
    exact (length_slice _ hsize).trans (Nat.mul_one _)
  have hregion : (i+1)*memAllocSize u = p+(u.filtLen-1)+160 := by
    have halloc : memAllocSize u = u.filtLen-1+160 := rfl
    rw [Nat.succ_mul]
    omega
  have hstored : p+q.state.mem.length ≤ mem.length := by omega
  unfold Call.round
  dsimp only
  rw [hchunk]
  refine hstore.then (hnative.then (.pure ⟨⟨⟨?_,hfrac,?_⟩,⟨fun j hj => ?_,fun k hk => ?_,?_,?_,rfl,rfl⟩,rfl⟩,rfl,rfl,rfl,rfl⟩))
  · exact List.getElem?_set_self (by rw [hs.channels]; exact hi)
  · have hslice := slice_splice mem hstored
    rwa [hkept] at hslice
  · exact List.getElem?_set_ne (Ne.symm hj)
  · refine (getElem?_splice_other hstored (by omega)).trans (getElem?_splice_other (by omega) (by omega))
  · exact List.length_set
  · exact (length_splice mem hstored).trans hsize

omit [Field K] in
theorem Does.append {t r : State K} {out' out'' : List K} {q q' : Resampler.Processed K (SpeexResampler.State K)}
    (h : Does u i s out pos q t out') (hlen : q.samples.length = q.produced*1)
    (h' : Does u i t out' (pos+q.produced*s.outStride) q' r out'') :
    Does u i s out pos ⟨q.consumed+q'.consumed,q.produced+q'.produced,q.samples ++ q'.samples,q'.state⟩ r out'' where
  holds := h'.holds
  only := h.only.trans h'.only
  out := by rw [h'.out,h.out,h.only.outStride,scatter_append,hlen,Nat.mul_one]

/-- The loop is that of the resampler of the channel. -/
theorem loop_ends {input : Option (List K)} (hi : i < u.nbChannels) (n : ℕ) {t : Call K} {σ : SpeexResampler.State K}
    {xs : List K} (hs : Sized u t.state) (hσ : Holds u t.state i σ) (hxs : xs.length = t.ilen)
    (hread : Reads input t.inPos t.state.inStride xs)
    (hout : ∀ k < t.olen, t.outPos+k*t.state.outStride < t.out.length) (hn : t.ilen+t.olen ≤ n) :
    (whileLoop (fun t : Call K => t.ilen ≠ 0 ∧ t.olen ≠ 0) (Call.round u i input) t).Ends fun t' =>
      let q := SpeexResampler.processFloat u.filter n σ xs t.ilen t.olen
      Does u i t.state t.out t.outPos q t'.state t'.out ∧ t'.ilen = t.ilen-q.consumed ∧ t'.olen = t.olen-q.produced := by
  have hidle : Does u i t.state t.out t.outPos ⟨0,0,[],σ⟩ t.state t.out := ⟨hσ,.refl u i _,rfl⟩
  induction n generalizing t σ xs with
  | zero => exact .whileLoop_stop (by omega) ⟨hidle,rfl,rfl⟩
  | succ n ih =>
    rw [SpeexResampler.processFloat]
    by_cases hstop : t.ilen = 0 ∨ t.olen = 0
    · rw [if_pos hstop]
      exact .whileLoop_stop (by omega) ⟨hidle,rfl,rfl⟩
    · rw [if_neg hstop]
      have hwithin := processNative_within (f := u.filter) σ (σ.mem ++ xs.take (min t.ilen xlen*1)) (min t.ilen xlen) t.olen
      have hround := Call.round_ends hs hi hσ hxs hread hout
      dsimp only at hround ⊢
      generalize SpeexResampler.processNative u.filter σ (σ.mem ++ xs.take (min t.ilen xlen*1)) (min t.ilen xlen) t.olen = q
        at hround hwithin ⊢
      refine .whileLoop_round (by omega) hround ?_
      rintro t' ⟨hdoes,hilen,holen,hinPos,houtPos⟩
      have hdrop : (xs.drop (q.consumed*1)).length = t'.ilen := by rw [List.length_drop,hxs,hilen,Nat.mul_one]
      have hread' : Reads input t'.inPos t'.state.inStride (xs.drop (q.consumed*1)) := by
        intro j hj
        have hindex : t'.inPos+j*t'.state.inStride = t.inPos+(q.consumed+j)*t.state.inStride := by
          rw [hinPos,hdoes.only.inStride]
          ring
        rw [List.length_drop,Nat.mul_one] at hj
        simp only [List.getElem_drop,Nat.mul_one]
        rw [hindex]
        exact hread _ (by omega)
      have hout' : ∀ k < t'.olen, t'.outPos+k*t'.state.outStride < t'.out.length := by
        intro k hk
        have hindex : t'.outPos+k*t'.state.outStride = t.outPos+(q.produced+k)*t.state.outStride := by
          rw [houtPos,hdoes.only.outStride]
          ring
        rw [hindex,hdoes.out,length_scatter]
        exact hout _ (by omega)
      have hchunk : 0 < min t.ilen xlen ∧ min t.ilen xlen ≤ t.ilen := by
        unfold xlen
        omega
      have hfuel : t'.ilen+t'.olen ≤ n := by
        have hlimit := hwithin.limit
        have hconsumed := hwithin.consumed_le
        omega
      refine (ih (hdoes.only.sized hs) hdoes.holds hdrop hread' hout' hfuel ⟨hdoes.holds,.refl u i _,rfl⟩).imp ?_
      rintro t'' ⟨hrest,hilen',holen'⟩
      rw [houtPos] at hrest
      rw [hilen,holen] at hrest hilen' holen'
      refine ⟨hdoes.append hwithin.length_samples hrest,?_,?_⟩
      · rw [hilen']
        omega
      · rw [holen']
        omega

theorem processFloat_ends {input : Option (List K)} {inPos ilen olen : ℕ} (hs : Sized u s) (hi : i < u.nbChannels)
    {σ : SpeexResampler.State K} (hσ : Holds u s i σ) {xs : List K} (hxs : xs.length = ilen)
    (hread : Reads input inPos s.inStride xs) (hout : ∀ k < olen, pos+k*s.outStride < out.length) :
    (processFloat u s i input inPos ilen out pos olen).Ends fun r =>
      let q := SpeexResampler.processFloat u.filter (ilen+olen) σ xs ilen olen
      r.consumed = q.consumed ∧ r.produced = q.produced ∧ Does u i s out pos q r.state r.out := by
  have hload : (load s.channels i : Program Empty Channel).Returns ⟨σ.counter,0⟩ := load_returns hσ.channel
  have hwithin := processFloat_within (f := u.filter) (le_refl (ilen+olen)) σ xs
  have hloop := loop_ends (t := ⟨s,out,ilen,olen,inPos,pos⟩) hi (ilen+olen) hs hσ hxs hread hout le_rfl
  have hconsumed := hwithin.consumed_le
  have hproduced := hwithin.produced_le
  have hstart : pos+0*s.outStride = pos := by omega
  unfold processFloat
  refine hload.then ?_
  rw [if_neg (by simp)]
  refine Returns.then (.pure _) (hload.then ?_)
  simp only [if_true,hstart]
  refine hloop.bind fun t ⟨hdoes,hilen,holen⟩ => .pure ⟨?_,?_,hdoes⟩
  · dsimp only at hilen ⊢
    omega
  · dsimp only at holen ⊢
    omega

/-- The frames offered by a call; without input it is silence. -/
def offered (u : Setup K) (input : Option (List K)) (inLen : ℕ) : List K :=
  input.elim (List.replicate (inLen*u.nbChannels) 0) (·.take (inLen*u.nbChannels))

/-- `in` has the frames offered. -/
def Supplies (u : Setup K) (input : Option (List K)) (inLen : ℕ) : Prop := ∀ xs, input = some xs → inLen*u.nbChannels ≤ xs.length

/-- The memory of a resampler of whole frames, channel by channel. -/
structure Joint (u : Setup K) (s : State K) (σ : SpeexResampler.State K) : Prop where
  sized : Sized u s
  mem : σ.mem.length = (u.filtLen-1)*u.nbChannels
  holds : ∀ i < u.nbChannels, Holds u s i (σ.lane u.nbChannels i)

theorem length_offered {input : Option (List K)} (h : Supplies u input inLen) :
    (offered u input inLen).length = inLen*u.nbChannels := by
  cases input with
  | none => exact List.length_replicate
  | some xs => exact (List.length_take).trans (Nat.min_eq_left (h xs rfl))

theorem reads_lane {input : Option (List K)} (h : Supplies u input inLen) (hi : i < u.nbChannels) :
    Reads input i u.nbChannels (lane u.nbChannels i (offered u input inLen)) := by
  intro j hj
  have hcell := getElem?_lane hi (length_offered h) j
  rw [List.getElem?_eq_getElem hj] at hcell
  rw [length_lane hi (length_offered h)] at hj
  have hlt := (lane_index_lt hi).mpr hj
  rw [Nat.add_comm i]
  cases input with
  | none =>
    have hzero : (lane u.nbChannels i (offered u none inLen))[j] = 0 := by
      simpa [offered,hlt] using hcell
    rw [hzero]
    exact .pure 0
  | some xs =>
    refine load_returns (hcell.trans ?_).symm
    exact (List.getElem?_take).trans (if_pos hlt)

/-- One call for all channels is one call of the resampler of whole frames. -/
theorem processInterleavedFloat_ends {σ : SpeexResampler.State K} (hnb : 0 < u.nbChannels) (h : Joint u s σ)
    {input : Option (List K)} (hin : Supplies u input inLen) (hout : outLen*u.nbChannels ≤ out.length) :
    (processInterleavedFloat u s input inLen out outLen).Ends fun r =>
      let q := (speex (u.filter.joint u.nbChannels)).process σ (offered u input inLen) inLen outLen
      r.consumed = q.consumed ∧ r.produced = q.produced ∧ r.out = splice out 0 q.samples ∧ Joint u r.state q.state ∧
        r.state.inStride = s.inStride ∧ r.state.outStride = s.outStride := by
  let q := SpeexResampler.processFloat (u.filter.joint u.nbChannels) (inLen+outLen) σ (offered u input inLen) inLen outLen
  let I (i : ℕ) (r : Done K) : Prop := Sized u r.state ∧ (0 < i → r.consumed = q.consumed ∧ r.produced = q.produced) ∧
    r.out = scatterLanes u.nbChannels out q.samples i ∧ (∀ j < i, Holds u r.state j (q.state.lane u.nbChannels j)) ∧
    (∀ j, i ≤ j → j < u.nbChannels → Holds u r.state j (σ.lane u.nbChannels j)) ∧
    r.state.inStride = u.nbChannels ∧ r.state.outStride = u.nbChannels
  have hwithin : Within u.nbChannels inLen outLen q := processFloat_within le_rfl σ _
  have hlane (i : ℕ) (hi : i < u.nbChannels) := lane_processFloat (g := u.filter) (n := inLen+outLen) hi h.mem
    (length_offered hin) outLen
  have hfit : q.samples.length ≤ out.length := by
    rw [hwithin.length_samples]
    exact (Nat.mul_le_mul_right _ hwithin.produced_le).trans hout
  have hstart : I 0 ⟨inLen,outLen,{ s with inStride := u.nbChannels, outStride := u.nbChannels },out⟩ := by
    refine ⟨⟨h.sized.channels,h.sized.mem⟩,fun hpos => absurd hpos (lt_irrefl 0),rfl,by simp,fun j _ hj => ?_,rfl,rfl⟩
    exact ⟨(h.holds j hj).channel,(h.holds j hj).frac,(h.holds j hj).mem⟩
  have hstep : ∀ i r, i < u.nbChannels → I i r →
      (processFloat u r.state i input i inLen r.out i outLen).Ends (I (i+1)) := by
    rintro i r hi ⟨hsized,-,hstored,hdone,hlater,hinStride,houtStride⟩
    have hread : Reads input i r.state.inStride (lane u.nbChannels i (offered u input inLen)) := by
      rw [hinStride]
      exact reads_lane hin hi
    have hroom : ∀ k < outLen, i+k*r.state.outStride < r.out.length := by
      intro k hk
      rw [houtStride,hstored,length_scatterLanes,Nat.add_comm]
      exact ((lane_index_lt hi).mpr hk).trans_le hout
    have hone := processFloat_ends hsized hi (hlater i le_rfl hi) (length_lane hi (length_offered hin)) hread hroom
    rw [(hlane i hi).1] at hone
    refine hone.imp ?_
    rintro r' ⟨hconsumed,hproduced,hdoes⟩
    refine ⟨hdoes.only.sized hsized,fun _ => ⟨hconsumed,hproduced⟩,?_,fun j hj => ?_,fun j hj hlt => ?_,?_,?_⟩
    · rw [hdoes.out,houtStride,hstored]
      rfl
    · rcases Nat.lt_succ_iff_lt_or_eq.mp hj with hlt | rfl
      · exact hdoes.only.holds (by omega) (hdone j hlt)
      · exact hdoes.holds
    · exact hdoes.only.holds (by omega) (hlater j (by omega) hlt)
    · exact hdoes.only.inStride.trans hinStride
    · exact hdoes.only.outStride.trans houtStride
  refine (Ends.forLoop I hstart hstep).bind ?_
  rintro r ⟨hsized,hcounts,hout',hdone,-⟩
  refine .pure ⟨(hcounts hnb).1,(hcounts hnb).2,?_,?_,rfl,rfl⟩
  · exact hout'.trans (scatterLanes_all hwithin.length_samples hfit)
  · refine ⟨⟨hsized.channels,hsized.mem⟩,(hlane 0 hnb).2,fun i hi => ?_⟩
    exact ⟨(hdone i hi).channel,(hdone i hi).frac,(hdone i hi).mem⟩

def initial (u : Setup K) : State K where
  channels := List.replicate u.nbChannels ⟨⟨0,0⟩,0⟩
  mem := List.replicate (u.nbChannels*memAllocSize u) 0
  inStride := 1
  outStride := 1

theorem initial_joint (u : Setup K) : Joint u (initial u) (speex (u.filter.joint u.nbChannels)).initial where
  sized := ⟨List.length_replicate,List.length_replicate⟩
  mem := List.length_replicate
  holds i hi := by
    have hroom := Sized.room (s := initial u) ⟨List.length_replicate,List.length_replicate⟩ hi
    have hmem : (initial u).mem.length = u.nbChannels*memAllocSize u := List.length_replicate
    refine ⟨by simp [initial,hi,speex,SpeexResampler.State.lane],u.denRate_pos,?_⟩
    exact (slice_replicate (by omega) 0).trans (lane_replicate hi (u.filtLen-1) 0).symm

/-- The state after calls that were offered what comes next of the stream `x`, how many
samples they have consumed, and what they have put out. The input may go on behind the
frames offered, and the output array may hold anything and have any length. -/
inductive Reached (u : Setup K) (x : Stream' K) : State K → ℕ → List K → Prop
  | initial : Reached u x (initial u) 0 []
  | call {s : State K} {m : ℕ} {ys : List K} (h : Reached u x s m ys) (n room : ℕ) (behind out : List K)
      (hout : room*u.nbChannels ≤ out.length) {r : Done K}
      (hr : (processInterleavedFloat u s (some ((x.drop m).take (n*u.nbChannels) ++ behind)) n out room).Returns r) :
      Reached u x r.state (m+r.consumed*u.nbChannels) (ys ++ r.out.take (r.produced*u.nbChannels))

theorem samples_fit (σ : SpeexResampler.State K) {xs : List K} {n room : ℕ} (hlen : xs.length = n*u.nbChannels)
    (hout : room*u.nbChannels ≤ out.length) :
    let q := (speex (u.filter.joint u.nbChannels)).process σ xs n room
    q.samples.length = q.produced*u.nbChannels ∧ q.samples.length ≤ out.length := by
  have hsamples := (speex (u.filter.joint u.nbChannels)).length_samples σ xs n room hlen
  have hroom := (speex (u.filter.joint u.nbChannels)).produced_le σ xs n room hlen
  refine ⟨hsamples,?_⟩
  rw [hsamples]
  exact (Nat.mul_le_mul_right _ hroom).trans hout

theorem Reached.joint (hnb : 0 < u.nbChannels) {x : Stream' K} {m : ℕ} {ys : List K} (h : Reached u x s m ys) :
    ∃ σ, Joint u s σ ∧ (speex (u.filter.joint u.nbChannels)).Reached x σ m ys := by
  induction h with
  | initial => exact ⟨_,initial_joint u,.initial⟩
  | @call s m ys h n room behind out hout r hr ih =>
    obtain ⟨σ,hjoint,hreached⟩ := ih
    have hlen : ((x.drop m).take (n*u.nbChannels)).length = n*u.nbChannels := Stream'.length_take _ _
    have hin : Supplies u (some ((x.drop m).take (n*u.nbChannels) ++ behind)) n := by
      intro xs hxs
      rw [← Option.some.inj hxs,List.length_append,hlen]
      exact Nat.le_add_right _ _
    have hoffered : offered u (some ((x.drop m).take (n*u.nbChannels) ++ behind)) n = (x.drop m).take (n*u.nbChannels) :=
      List.take_left' hlen
    obtain ⟨r',hr',hconsumed,hproduced,hstored,hnext,-⟩ := processInterleavedFloat_ends hnb hjoint hin hout
    obtain rfl := hr.unique hr'
    rw [hoffered] at hconsumed hproduced hstored hnext
    obtain ⟨hsamples,hfit⟩ := samples_fit σ hlen hout
    rw [hstored,hproduced,← hsamples,take_splice_zero out hfit,hconsumed]
    exact ⟨_,hnext,.process hreached n room rfl⟩

/-- In memory and channel by channel, speex makes the filtered stream of whole frames,
however its calls cut input and output. No call reads or writes outside its arrays, and
each ends with the input or the room used up. -/
theorem speex_memory (hnb : 0 < u.nbChannels) {x : Stream' K} {m : ℕ} {ys : List K} (h : Reached u x s m ys) :
    ys = (filtered (u.filter.joint u.nbChannels) x).take ys.length ∧
    ∀ (input : Option (List K)) (n room : ℕ) (out : List K), Supplies u input n → room*u.nbChannels ≤ out.length →
      (processInterleavedFloat u s input n out room).Ends fun r => r.consumed ≤ n ∧ r.produced ≤ room ∧
        (r.consumed = n ∨ r.produced = room) ∧
        r.out.drop (r.produced*u.nbChannels) = out.drop (r.produced*u.nbChannels) := by
  obtain ⟨σ,hjoint,hreached⟩ := h.joint hnb
  refine ⟨?_,fun input n room out hin hout => ?_⟩
  · obtain ⟨c,k,-,-,rfl⟩ := reached_tracks hnb hreached
    rw [Stream'.length_take]
  · refine (processInterleavedFloat_ends hnb hjoint hin hout).imp ?_
    rintro r ⟨hconsumed,hproduced,hstored,-⟩
    have hlen := length_offered hin
    obtain ⟨hsamples,hfit⟩ := samples_fit σ hlen hout
    rw [hconsumed,hproduced,hstored]
    refine ⟨(speex (u.filter.joint u.nbChannels)).consumed_le σ _ n room hlen,
      (speex (u.filter.joint u.nbChannels)).produced_le σ _ n room hlen,
      (speex (u.filter.joint u.nbChannels)).limit σ _ n room hlen,?_⟩
    rw [← hsamples]
    exact drop_splice_zero out hfit

/-- Two channels at the same rate, and a filter whose only tap is the last. -/
def pass : Setup ℚ where
  nbChannels := 2
  numRate := 1
  denRate := 1
  filtLen := 8
  oversample := 4
  resamplerPtr := .directDouble
  sincTable := [0,0,0,0,0,0,0,1]
  numRate_pos := Nat.one_pos
  denRate_pos := Nat.one_pos
  filtLen_pos := by decide
  filtLen_dvd := by decide
  oversample_pos := by decide
  table := by decide

theorem speex_memory_pass : ∃ (s : State ℚ) (m : ℕ) (ys : List ℚ), Reached pass (fun _ => 1) s m ys ∧
    ys = (filtered (pass.filter.joint 2) fun _ => 1).take ys.length := by
  have hin : Supplies pass (some ((Stream'.drop 0 fun _ => 1).take (1*2) ++ [5])) 1 := by
    intro xs hxs
    rw [← Option.some.inj hxs]
    decide
  obtain ⟨r,hr,-⟩ := (speex_memory Nat.two_pos (Reached.initial (u := pass) (x := fun _ => 1))).2 _ 1 1 [0,0,0] hin (by decide)
  have h := Reached.call .initial 1 1 [5] [0,0,0] (by decide) hr
  exact ⟨_,_,_,h,(speex_memory Nat.two_pos h).1⟩

end SpeexMemory
end AudioOutput
