import AudioOutput.ConverterStreams
import AudioOutput.SpeexResampler

/-!
# The stream that speex makes

Output `k` is the convolution of row `k·num_rate mod den_rate` with the frames around
position `⌊k·num_rate/den_rate⌋` of the input behind silence, one filter length long.
The memory and the counters carry over from call to call what is needed for that, so
the calls may cut the input and the output anywhere.
-/

namespace AudioOutput
namespace SpeexResampler

open Resampler

variable {α : Type} {channels : ℕ} (f : Filter α channels)

section Stream

variable [Zero α]

/-- The input as the filter sees it. -/
def padded (x : Stream' α) : Stream' α := List.replicate ((f.filtLen-1)*channels) 0 ++ₛ x

def frame (x : Stream' α) (k : ℕ) : List α :=
  f.convolve (k*f.numRate%f.denRate) (((padded f x).drop (position f.numRate f.denRate k*channels)).take (f.filtLen*channels))

def filtered (x : Stream' α) : Stream' α := BlockStream.concat channels (frame f x)

variable {f}

theorem take_padded (x : Stream' α) :
    (padded f x).take ((f.filtLen-1)*channels) = List.replicate ((f.filtLen-1)*channels) 0 := by
  rw [padded,Stream'.take_append_of_le_length _ _ _ (by simp),List.take_of_length_le (by simp)]

theorem drop_padded (x : Stream' α) (n : ℕ) : (padded f x).drop (n+(f.filtLen-1)*channels) = x.drop n := by
  have hpadding : (padded f x).drop ((f.filtLen-1)*channels) = x := by
    conv_lhs => rw [← List.length_replicate (n := (f.filtLen-1)*channels) (a := (0 : α))]
    exact Stream'.drop_append_stream _ _
  rw [Nat.add_comm,← Stream'.drop_drop,hpadding]

theorem length_frame (x : Stream' α) (k : ℕ) : (frame f x k).length = channels := f.length_convolve _ _

theorem take_filtered (hchannels : 0 < channels) (x : Stream' α) (k : ℕ) :
    ((filtered f x).drop (k*channels)).take channels = frame f x k := by
  rw [filtered,BlockStream.drop_concat _ hchannels]
  exact BlockStream.take_concat_one _ (length_frame x _)

def memory (f : Filter α channels) (x : Stream' α) (c n : ℕ) : List α :=
  ((padded f x).drop (c*channels)).take ((f.filtLen-1+n)*channels)

/-- The memory is that of the stream `x` after `c` frames of it have been consumed, and
the next output is `k`. -/
structure Tracks (f : Filter α channels) (x : Stream' α) (s : State α) (c k : ℕ) : Prop where
  counter : s.counter.Marks f c k
  mem : s.mem = memory f x c 0

theorem memory_append (x : Stream' α) (c n : ℕ) :
    memory f x c 0 ++ (x.drop (c*channels)).take (n*channels) = memory f x c n := by
  rw [memory,memory,Nat.add_zero,Nat.add_mul,Stream'.take_add,Stream'.drop_drop,drop_padded]

/-- Consumed frames are moved out of the memory at its front. -/
theorem slice_memory (x : Stream' α) (c : ℕ) {m n : ℕ} (h : m ≤ n) :
    Buffer.slice (memory f x c n) (m*channels) ((f.filtLen-1)*channels) = memory f x (c+m) 0 := by
  have hfit : m*channels+(f.filtLen-1)*channels ≤ (f.filtLen-1+n)*channels := by
    rw [← Nat.add_mul]
    exact Nat.mul_le_mul_right _ (by omega)
  rw [memory,BlockStream.slice_take _ hfit,Stream'.drop_drop,← Nat.add_mul]
  rfl

theorem Counter.Marks.frame_eq {p : Counter} {c k : ℕ} (h : p.Marks f c k) (x : Stream' α) {n : ℕ} (hn : p.lastSample < n) :
    f.convolve p.sampFracNum (Buffer.slice (memory f x c n) (p.lastSample*channels) (f.filtLen*channels)) = frame f x k := by
  have hfrac : k*f.numRate%f.denRate = p.sampFracNum := by
    rw [← h.total,Nat.mul_comm,Nat.mul_add_mod,Nat.mod_eq_of_lt h.frac]
  have hfit : p.lastSample*channels+f.filtLen*channels ≤ (f.filtLen-1+n)*channels := by
    rw [← Nat.add_mul]
    exact Nat.mul_le_mul_right _ (by omega)
  rw [memory,BlockStream.slice_take _ hfit,Stream'.drop_drop,← Nat.add_mul,frame,hfrac,h.position_eq]

theorem resamplerBasic_frames (hchannels : 0 < channels) (x : Stream' α) (inLen outLen : ℕ) {p : Counter} {c k : ℕ}
    (h : p.Marks f c k) :
    ((resamplerBasic f inLen outLen p).1.flatMap fun q => f.convolve q.sampFracNum
        (Buffer.slice (memory f x c inLen) (q.lastSample*channels) (f.filtLen*channels))) =
      ((filtered f x).drop (k*channels)).take ((resamplerBasic f inLen outLen p).1.length*channels) := by
  induction outLen generalizing p k with
  | zero => simp [resamplerBasic]
  | succ outLen ih =>
    rw [resamplerBasic]
    split
    case isTrue hlt =>
      have hsplit (n : ℕ) : (n+1)*channels = channels+n*channels := by rw [Nat.succ_mul,Nat.add_comm]
      rw [List.flatMap_cons,h.frame_eq x hlt,ih h.advance,List.length_cons,Nat.succ_mul k,hsplit,Stream'.take_add,
        take_filtered hchannels,Stream'.drop_drop]
    case isFalse hge => simp

structure Advances (f : Filter α channels) (x : Stream' α) (c k : ℕ) (r : Processed α (State α)) : Prop where
  tracks : Tracks f x r.state (c+r.consumed) (k+r.produced)
  samples : r.samples = ((filtered f x).drop (k*channels)).take (r.produced*channels)

theorem Tracks.processNative (hchannels : 0 < channels) {x : Stream' α} {s : State α} {c k : ℕ} (h : Tracks f x s c k)
    (inLen outLen : ℕ) : Advances f x c k (processNative f s (memory f x c inLen) inLen outLen) where
  tracks := {
    counter := (processNative_marks h.counter _ _ _).1
    mem := slice_memory x c (processNative_within s (memory f x c inLen) inLen outLen).consumed_le }
  samples := resamplerBasic_frames hchannels x inLen outLen h.counter

theorem Advances.append {x : Stream' α} {c k : ℕ} {r t : Processed α (State α)} (hr : Advances f x c k r)
    (ht : Advances f x (c+r.consumed) (k+r.produced) t) :
    Advances f x c k ⟨r.consumed+t.consumed,r.produced+t.produced,r.samples ++ t.samples,t.state⟩ where
  tracks := by
    have htracks := ht.tracks
    rwa [Nat.add_assoc,Nat.add_assoc] at htracks
  samples := by
    dsimp only
    rw [hr.samples,ht.samples,Nat.add_mul r.produced,Stream'.take_add,Stream'.drop_drop,← Nat.add_mul]

theorem Tracks.processFloat (hchannels : 0 < channels) {x : Stream' α} (n : ℕ) {s : State α} {c k : ℕ}
    (h : Tracks f x s c k) (ilen olen : ℕ) :
    Advances f x c k (processFloat f n s ((x.drop (c*channels)).take (ilen*channels)) ilen olen) := by
  have hidle : Advances f x c k ⟨0,0,[],s⟩ := ⟨h,by simp⟩
  induction n generalizing s c k ilen olen with
  | zero => exact hidle
  | succ n ih =>
    rw [SpeexResampler.processFloat]
    by_cases hstop : ilen = 0 ∨ olen = 0
    · rw [if_pos hstop]
      exact hidle
    · rw [if_neg hstop]
      have hchunk : min ilen xlen ≤ ilen := min_le_left _ _
      have hoffered : s.mem ++ ((x.drop (c*channels)).take (ilen*channels)).take (min ilen xlen*channels) =
          memory f x c (min ilen xlen) := by
        rw [h.mem,Stream'.take_take,Nat.min_eq_right (Nat.mul_le_mul_right _ hchunk),memory_append]
      dsimp only
      rw [hoffered]
      have hone := h.processNative hchannels (min ilen xlen) olen
      generalize SpeexResampler.processNative f s (memory f x c (min ilen xlen)) (min ilen xlen) olen = r at hone ⊢
      refine hone.append ?_
      rw [BlockStream.drop_take,Stream'.drop_drop,← Nat.add_mul,← Nat.sub_mul]
      exact ih hone.tracks _ _ ⟨hone.tracks,by simp⟩

theorem tracks_start (x : Stream' α) : Tracks f x (speex f).initial 0 0 where
  counter := speex_counts.start
  mem := by rw [memory,Nat.zero_mul,Stream'.drop_zero,Nat.add_zero,take_padded]; rfl

theorem reached_tracks (hchannels : 0 < channels) {x : Stream' α} {s : (speex f).State} {m : ℕ} {ys : List α}
    (h : (speex f).Reached x s m ys) :
    ∃ c k, Tracks f x s c k ∧ m = c*channels ∧ ys = (filtered f x).take (k*channels) := by
  induction h with
  | initial => exact ⟨0,0,tracks_start x,by simp,by simp⟩
  | @process s m ys h n room r hr ih =>
    obtain ⟨c,k,htracks,rfl,rfl⟩ := ih
    have hcall := htracks.processFloat hchannels (n+room) n room
    subst hr
    refine ⟨_,_,hcall.tracks,(Nat.add_mul _ _ _).symm,?_⟩
    rw [Nat.add_mul,Stream'.take_add]
    exact congrArg _ hcall.samples

/-- However the input is offered and whatever room there is for the output, the output
is the start of the filtered stream, and no shorter than the rates say. -/
theorem speex_streams (hchannels : 0 < channels) {inputSr outputSr : ℕ} (hratio : f.numRate*outputSr = f.denRate*inputSr) :
    (speex f).Streams inputSr outputSr (filtered f) where
  output h := by
    obtain ⟨c,k,-,-,rfl⟩ := reached_tracks hchannels h
    rw [Stream'.length_take]
  ahead h := by
    obtain ⟨c,k,htracks,rfl,rfl⟩ := reached_tracks hchannels h
    rw [Stream'.length_take]
    have hbehind : c*f.denRate ≤ k*f.numRate := by
      rw [← htracks.counter.total]
      exact (Nat.mul_le_mul_right _ (Nat.le_add_right c _)).trans (Nat.le_add_right _ _)
    refine Nat.le_of_mul_le_mul_left ?_ f.denRate_pos
    calc f.denRate*(c*channels*outputSr) = c*f.denRate*(channels*outputSr) := by ring
      _ ≤ k*f.numRate*(channels*outputSr) := Nat.mul_le_mul_right _ hbehind
      _ = k*channels*(f.numRate*outputSr) := by ring
      _ = f.denRate*(k*channels*inputSr) := by rw [hratio]; ring

/-- Twice the rate. -/
theorem speex_streams_nearest :
    (speex (nearest 1 2 Nat.one_pos Nat.two_pos)).Streams 24000 48000 (filtered (nearest 1 2 Nat.one_pos Nat.two_pos)) :=
  speex_streams one_pos rfl

end Stream

end SpeexResampler
end AudioOutput
