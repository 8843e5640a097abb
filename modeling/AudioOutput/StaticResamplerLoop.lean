import AudioOutput.ResamplerStreams
import AudioOutput.SpeexResampler
import AudioOutput.StaticResampler

/-!
# The loop of `staticResampler`

Where nothing overflows there is room for every output that speex computes before the
end of the input. A round uses up its chunk of the input or fills its chunk of the
room, so the loop ends at the end of the input, and the counters of speex say how
many frames it has stored by then.
-/

namespace AudioOutput
namespace StaticResampler

open Program Resampler BlockLength

/-- There is room for as many frames as the loop counts. -/
theorem room_le (channels frames : ℕ) (r : Ratio) :
    (frames*r.denRate/r.numRate+200)*channels ≤ frames*channels*r.denRate/r.numRate+channels*200 := by
  have hquotient : channels*(frames*r.denRate/r.numRate) ≤ channels*(frames*r.denRate)/r.numRate :=
    Nat.mul_div_le_mul_div_assoc _ _ _
  have hproduct : frames*channels*r.denRate = channels*(frames*r.denRate) := by ring
  rw [hproduct,Nat.add_mul,Nat.mul_comm _ channels,Nat.mul_comm 200]
  exact Nat.add_le_add_right hquotient _

structure NoOverflow (channels frames : ℕ) (r : Ratio) : Prop where
  samples : frames*channels < 2^31
  reserve : channels*200 < 2^31
  product : frames*channels*r.denRate < 2^32
  size : frames*channels*r.denRate/r.numRate+channels*200 < 2^31

namespace NoOverflow

variable {channels frames : ℕ} {r : Ratio} (h : NoOverflow channels frames r)
include h

theorem size_eq :
    StaticResampler.size channels frames r = some ((frames*channels*r.denRate/r.numRate+channels*200 : ℕ) : ℤ) := by
  rw [StaticResampler.size,if_pos ⟨h.samples,h.reserve⟩,wrapUnsigned,Nat.mod_eq_of_lt h.product,wrap32_natCast h.size]

theorem remainingOut_eq (hchannels : 1 ≤ channels) :
    remainingOut frames r = (frames*r.denRate/r.numRate+200 : ℕ) := by
  have hle : ∀ n, n ≤ n*channels := fun n => Nat.le_mul_of_pos_right _ hchannels
  have hproduct : frames*r.denRate < 2^32 := by
    refine lt_of_le_of_lt ?_ h.product
    exact Nat.mul_le_mul_right _ (hle frames)
  rw [remainingOut,wrapUnsigned,Nat.mod_eq_of_lt hproduct]
  exact wrap32_natCast (((hle _).trans (room_le channels frames r)).trans_lt h.size)

end NoOverflow

theorem outputsBefore_le {numer denom : ℕ} (hnumer : 0 < numer) (frames : ℕ) :
    outputsBefore numer denom frames ≤ frames*denom/numer+1 := by
  rw [outputsBefore,ceilDiv_le_iff_le_mul hnumer,Nat.mul_succ,Nat.add_comm]
  have hsplit := Nat.mod_add_div (frames*denom) numer
  have hmod := Nat.mod_lt (frames*denom) hnumer
  omega

section Loop

variable {α : Type} {channels : ℕ} {speex : Speex α channels}

/-- What the rounds so far have consumed and stored; `o` is the array before the loop. -/
structure Locals.Done (At : speex.State → ℕ → ℕ → Prop) (numer denom frames room : ℕ) (data o : List α)
    (w : Locals speex) : Prop where
  remainingIn : w.remainingIn ≤ frames
  remainingOut : w.remainingOut = room-w.outLength
  counts : At w.resampler (frames-w.remainingIn) w.outLength
  outLength : w.outLength ≤ outputsBefore numer denom frames
  consumed : w.consumed = data.take w.tempData
  tempData : w.tempData = (frames-w.remainingIn)*channels
  length : w.produced.length = w.outLength*channels
  tempO : w.tempO = w.produced.length
  o : w.o = Buffer.splice o 0 w.produced
  reached : ∀ tail : Stream' α, speex.Reached (data ++ₛ tail) w.resampler w.tempData w.produced

variable {At : speex.State → ℕ → ℕ → Prop} {numer denom frames room : ℕ} {data o : List α}

theorem Locals.Done.start (h : Counts speex numer denom At) :
    Locals.Done At numer denom frames room data o ⟨speex.initial,frames,room,0,0,0,o,[],[]⟩ where
  remainingIn := le_rfl
  remainingOut := by simp
  counts := by simpa using h.start
  outLength := Nat.zero_le _
  consumed := rfl
  tempData := by simp
  length := by simp
  tempO := rfl
  o := (Buffer.splice_nil o 0).symm
  reached _ := .initial

theorem Locals.Done.round {w : Locals speex} (hw : w.Done At numer denom frames room data o)
    (h : Counts speex numer denom At) (hnumer : 0 < numer) (hdenom : 0 < denom) (hdata : data.length = frames*channels)
    (ho : room*channels ≤ o.length) (hin : 0 < w.remainingIn) (hout : 0 < w.remainingOut) :
    Ends (w.round data) fun w' => w'.Done At numer denom frames room data o ∧
      w'.remainingIn+w'.remainingOut.toNat < w.remainingIn+w.remainingOut.toNat := by
  have hremaining := hw.remainingOut
  have hle := hw.remainingIn
  obtain ⟨n,hn⟩ : ∃ n, n = min 1024 w.remainingIn := ⟨_,rfl⟩
  obtain ⟨written,hwritten⟩ : ∃ m, m = (min 1024 w.remainingOut).toNat := ⟨_,rfl⟩
  have hinput : w.tempData+n*channels ≤ data.length := by
    rw [hw.tempData,hdata,← Nat.add_mul]
    exact Nat.mul_le_mul_right _ (by omega)
  have hspace : (w.outLength+written)*channels ≤ o.length :=
    (Nat.mul_le_mul_right _ (by omega)).trans ho
  have hfits : 0+w.produced.length ≤ o.length := by
    rw [Nat.add_mul] at hspace
    rw [hw.length]
    omega
  have hoLength : w.o.length = o.length := by rw [hw.o,Buffer.length_splice o hfits]
  have hroom : w.tempO+written*channels ≤ w.o.length := by
    rw [hw.tempO,hw.length,hoLength,← Nat.add_mul]
    exact hspace
  have hoffered : (Buffer.slice data w.tempData (n*channels)).length = n*channels := Buffer.length_slice _ hinput
  unfold Locals.round
  rw [← hn,← hwritten]
  refine (Buffer.region_returns hinput).then ((Buffer.region_returns hroom).then ?_)
  have hconsumed := speex.consumed_le w.resampler _ _ written hoffered
  have hproduced := speex.produced_le w.resampler _ _ written hoffered
  have hlength := speex.length_samples w.resampler _ _ written hoffered
  have hlimit := speex.limit w.resampler _ _ written hoffered
  have hcounts := h.next hw.counts _ n written hoffered
  have hnew : (speex.process w.resampler (Buffer.slice data w.tempData (n*channels)) n written).produced = _ :=
    h.produced_eq hnumer hdenom hw.counts hoffered
  have hreached : ∀ tail : Stream' α, speex.Reached (data ++ₛ tail)
      (speex.process w.resampler (Buffer.slice data w.tempData (n*channels)) n written).state
      (w.tempData+(speex.process w.resampler (Buffer.slice data w.tempData (n*channels)) n written).consumed*channels)
      (w.produced ++ (speex.process w.resampler (Buffer.slice data w.tempData (n*channels)) n written).samples) := by
    intro tail
    refine (hw.reached tail).process n written ?_
    rw [Buffer.slice,← Stream'.take_append_of_le_length _ _ tail (by simp; omega),Stream'.drop_append_of_le_length]
    omega
  generalize speex.process w.resampler (Buffer.slice data w.tempData (n*channels)) n written = r at *
  have hbefore : outputsBefore numer denom (frames-w.remainingIn+n) ≤ outputsBefore numer denom frames :=
    outputsBefore_mono hnumer (by omega)
  have hstore : w.tempO+r.samples.length ≤ w.o.length := by
    rw [hlength]
    exact (Nat.add_le_add_left (Nat.mul_le_mul_right _ hproduced) _).trans hroom
  refine (Buffer.store_returns hstore).then (.pure ⟨?_,?_⟩)
  · have hleft : frames-(w.remainingIn-r.consumed) = frames-w.remainingIn+r.consumed := by omega
    have htotal := hw.outLength
    exact {
      remainingIn := by dsimp only; omega
      remainingOut := by dsimp only; omega
      counts := by dsimp only; rw [hleft]; exact hcounts
      outLength := by dsimp only; omega
      consumed := by
        dsimp only
        have hwhole : r.consumed*channels ≤ n*channels := Nat.mul_le_mul_right _ hconsumed
        rw [hw.consumed,Buffer.slice,List.take_take,Nat.min_eq_left hwhole,← List.take_add]
      tempData := by dsimp only; rw [hleft,hw.tempData,Nat.add_mul]
      length := by dsimp only; rw [List.length_append,hw.length,hlength,Nat.add_mul]
      tempO := by dsimp only; rw [List.length_append,hw.tempO,hlength]
      o := by
        dsimp only
        rw [hw.o,hw.tempO,← Nat.zero_add w.produced.length,Buffer.splice_append _ _ hfits]
      reached := hreached }
  · dsimp only
    omega

/-- The room lasts until the input is used up. -/
theorem resample_ends (h : Counts speex numer denom At) (hnumer : 0 < numer) (hdenom : 0 < denom)
    (hdata : data.length = frames*channels) (ho : room*channels ≤ o.length)
    (hroom : outputsBefore numer denom frames < room) :
    Ends (resample speex frames room data o) fun w =>
      w.Done At numer denom frames room data o ∧ w.remainingIn = 0 ∧ w.outLength = outputsBefore numer denom frames := by
  refine (Ends.whileLoop (Locals.Done At numer denom frames room data o)
    (fun w => w.remainingIn+w.remainingOut.toNat) (.start h) ?_).imp ?_
  · rintro w hw ⟨hin,hout⟩
    exact hw.round h hnumer hdenom hdata ho hin hout
  · rintro w ⟨hw,hstop⟩
    have hremaining := hw.remainingOut
    have hmost := hw.outLength
    have hall : w.remainingIn = 0 := by
      by_contra hne
      exact hstop ⟨Nat.pos_of_ne_zero hne,by omega⟩
    have hcounts := hw.counts
    rw [hall,Nat.sub_zero] at hcounts
    exact ⟨hw,hall,le_antisymm hmost ((le_position_iff hnumer hdenom _ _).mp (h.reserved hcounts))⟩

/-- Where nothing overflows the loop ends with the whole input consumed, and `*outData`
starts with what speex has produced, which is as long as `*outLength` says. -/
theorem staticResampler_exact [Zero α] (hchannels : 1 ≤ channels) {inputSr outputSr frames : ℕ} (hin : 0 < inputSr)
    (hout : 0 < outputSr) (hne : inputSr ≠ outputSr) {r : Ratio} (hr : Returns (setRateFrac inputSr outputSr) r)
    (hover : NoOverflow channels frames r) (h : Counts speex r.numRate r.denRate At) {data : List α}
    (hdata : data.length = frames*channels) :
    ∃ n w, size channels frames r = some n ∧
      Returns (resample speex frames (remainingOut frames r) data (List.replicate n.toNat 0)) w ∧
      w.remainingIn = 0 ∧ w.consumed = data ∧
      w.outLength = (frames*r.denRate) ⌈/⌉ r.numRate ∧ w.produced.length = w.outLength*channels ∧
      w.o.take (w.outLength*channels) = w.produced ∧
      (∀ tail : Stream' α, speex.Reached (data ++ₛ tail) w.resampler data.length w.produced) ∧
      Returns (staticResampler (some speex) errSuccess true inputSr outputSr frames data) (.ok (w.outLength,some w.o)) := by
  have hratio := hr.unique (setRateFrac_returns hin hout)
  have hnumer : 0 < r.numRate := by
    rw [hratio]
    exact Nat.div_pos (Nat.gcd_le_left _ hin) (Nat.gcd_pos_of_pos_left _ hin)
  have hdenom : 0 < r.denRate := by
    rw [hratio]
    exact Nat.div_pos (Nat.gcd_le_right _ hout) (Nat.gcd_pos_of_pos_left _ hin)
  let n := frames*channels*r.denRate/r.numRate+channels*200
  have hsize : size channels frames r = some (n : ℤ) := hover.size_eq
  have hroom : (frames*r.denRate/r.numRate+200)*channels ≤ (List.replicate n (0 : α)).length := by
    rw [List.length_replicate]
    exact room_le channels frames r
  obtain ⟨w,hreturns,hw,hall,hlast⟩ := resample_ends h hnumer hdenom hdata hroom
    ((outputsBefore_le hnumer frames).trans_lt (by omega))
  rw [← hover.remainingOut_eq hchannels] at hreturns
  have htempData : w.tempData = data.length := by rw [hw.tempData,hall,Nat.sub_zero,hdata]
  have hfits : 0+w.produced.length ≤ (List.replicate n (0 : α)).length := by
    refine le_trans ?_ hroom
    rw [Nat.zero_add,hw.length,hlast]
    exact Nat.mul_le_mul_right _ ((outputsBefore_le hnumer frames).trans (by omega))
  refine ⟨n,w,hsize,hreturns,hall,?_,hlast,hw.length,?_,fun tail => htempData ▸ hw.reached tail,?_⟩
  · rw [hw.consumed,htempData,List.take_length]
  · have htake := Buffer.take_splice (List.replicate n (0 : α)) hfits
    rwa [← hw.o,Nat.zero_add,hw.length,List.take_zero,List.nil_append] at htake
  · unfold staticResampler
    rw [if_neg hne]
    dsimp only
    rw [if_neg (by decide),if_neg (by simp)]
    refine hr.bind ?_
    rw [hsize]
    dsimp only
    rw [calloc,if_pos ⟨rfl,Int.natCast_nonneg n⟩]
    exact hreturns.bind (.pure _)

/-- Three frames at twice the rate. -/
theorem staticResampler_exact_three : ∃ w, Returns (staticResampler
    (some (SpeexResampler.speex (SpeexResampler.nearest 1 2 (by decide) (by decide)))) errSuccess true 24000 48000 3 [1,2,3]) (.ok w) ∧
    w.1 = 6 := by
  have hr : Returns (setRateFrac 24000 48000) ⟨1,2⟩ := setRateFrac_returns (by decide) (by decide)
  have hover : NoOverflow 1 3 ⟨1,2⟩ := ⟨by decide,by decide,by decide,by decide⟩
  have hcounts := SpeexResampler.speex_counts (f := SpeexResampler.nearest 1 2 (by decide) (by decide))
  have hdata : ([1,2,3] : List ℚ).length = 3*1 := rfl
  obtain ⟨n,w,_,_,_,_,hlength,_,_,_,hreturns⟩ :=
    staticResampler_exact (by decide) (by decide) (by decide) (by decide) hr hover hcounts hdata
  exact ⟨_,hreturns,hlength.trans (by decide)⟩

end Loop

end StaticResampler
end AudioOutput
