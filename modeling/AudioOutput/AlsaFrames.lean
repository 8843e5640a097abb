import AudioOutput.AlsaOutputDevice

/-!
# What the ALSA loop delivers

The frames ALSA accepts against the frames taken from the worker, after the
channel reordering. The loop offers each chunk once: whatever `snd_pcm_writei`
does not take of it is gone.
-/

namespace AudioOutput
namespace AlsaOutputDevice

open Transition

universe u
variable {α : Type u}

@[simp] theorem length_frames (channels n : ℕ) (xs : List α) : (frames channels n xs).length = n := by
  induction n generalizing xs with
  | zero => rfl
  | succ n ih => simp [frames,ih]

theorem frames_flatten (channels : ℕ) (fs : List (List α)) (rest : List α) (h : ∀ f ∈ fs, f.length = channels) :
    frames channels fs.length (fs.flatten ++ rest) = fs := by
  induction fs with
  | nil => rfl
  | cons f fs ih =>
    have hf : f.length = channels := h f (by simp)
    have hrest := ih fun g hg => h g (by simp [hg])
    rw [List.length_cons,frames,List.flatten_cons,List.append_assoc,List.take_left' hf,List.drop_left' hf,hrest]

theorem frames_append (channels n : ℕ) (xs rest : List α) (h : xs.length = n*channels) :
    frames channels n (xs ++ rest) = frames channels n xs := by
  induction n generalizing xs with
  | zero => rfl
  | succ n ih =>
    rw [Nat.succ_mul] at h
    rw [frames,frames,List.take_append_of_le_length (by omega),List.drop_append_of_le_length (by omega),
      ih _ (by rw [List.length_drop]; omega)]

theorem length_of_mem_frames {channels n : ℕ} {xs f : List α} (h : n*channels ≤ xs.length)
    (hf : f ∈ frames channels n xs) : f.length = channels := by
  induction n generalizing xs with
  | zero => simp [frames] at hf
  | succ n ih =>
    rw [Nat.succ_mul] at h
    rcases List.mem_cons.mp hf with rfl | hf
    · rw [List.length_take]
      omega
    · exact ih (by rw [List.length_drop]; omega) hf

theorem swapCells_append (pre xs post : List α) {i j : ℕ} (hi : i < xs.length) (hj : j < xs.length) :
    swapCells (pre ++ (xs ++ post)) (pre.length+i) (pre.length+j) = pre ++ (swapCells xs i j ++ post) := by
  have hget (k : ℕ) (hk : k < xs.length) : (pre ++ (xs ++ post))[pre.length+k]? = some xs[k] := by
    rw [List.getElem?_append_right (by omega),Nat.add_sub_cancel_left,List.getElem?_append_left hk,
      List.getElem?_eq_getElem hk]
  have hset (ys : List α) (k : ℕ) (hk : k < ys.length) (a : α) :
      (pre ++ (ys ++ post)).set (pre.length+k) a = pre ++ (ys.set k a ++ post) := by
    rw [List.set_append_right _ _ (by omega),Nat.add_sub_cancel_left,List.set_append_left _ _ hk]
  simp only [swapCells,hget i hi,hget j hj,List.getElem?_eq_getElem hi,List.getElem?_eq_getElem hj]
  rw [hset xs i hi,hset _ j (by simpa using hj)]

@[simp] theorem length_swapCells (xs : List α) (i j : ℕ) : (swapCells xs i j).length = xs.length := by
  unfold swapCells
  split <;> simp

@[simp] theorem length_reorderAt (channels : ℕ) (xs : List α) (i : ℕ) :
    (reorderAt channels xs i).length = xs.length := by
  simp [reorderAt]

theorem reorderAt_append (channels : ℕ) (pre f post : List α) (hf : f.length = channels) (hch : 4 ≤ channels) :
    reorderAt channels (pre ++ (f ++ post)) pre.length = pre ++ (reorderAt channels f 0 ++ post) := by
  rw [reorderAt,swapCells_append pre f post (by omega) (by omega),
    swapCells_append pre _ post (by simp; omega) (by simp; omega)]
  simp only [reorderAt,Nat.zero_add]

/-- The loop reorders frame by frame and leaves what comes after the chunk. -/
theorem reorderLoop_append (channels n : ℕ) (pre xs : List α) (hlen : n*channels ≤ xs.length) (hch : 4 ≤ channels) :
    reorderLoop channels n pre.length (pre ++ xs) =
      pre ++ (((frames channels n xs).map (reorderAt channels · 0)).flatten ++ xs.drop (n*channels)) := by
  induction n generalizing pre xs with
  | zero => simp [reorderLoop,frames]
  | succ n ih =>
    rw [Nat.succ_mul] at hlen
    have hf : (xs.take channels).length = channels := by rw [List.length_take]; omega
    have hpre : (pre ++ reorderAt channels (xs.take channels) 0).length = pre.length+channels := by simp [hf]
    calc
      reorderLoop channels (n+1) pre.length (pre ++ xs)
          = reorderLoop channels n (pre.length+channels)
              (reorderAt channels (pre ++ (xs.take channels ++ xs.drop channels)) pre.length) := by
            rw [List.take_append_drop,reorderLoop]
      _ = reorderLoop channels n (pre.length+channels)
            ((pre ++ reorderAt channels (xs.take channels) 0) ++ xs.drop channels) := by
            rw [reorderAt_append channels pre _ _ hf hch,List.append_assoc]
      _ = _ := by
            rw [← hpre,ih _ _ (by rw [List.length_drop]; omega)]
            simp only [frames,List.map_cons,List.flatten_cons,List.append_assoc,List.drop_drop,Nat.succ_mul,
              Nat.add_comm]

def reorderFrame (channels : ℕ) (f : List α) : List α := reorder channels 1 f

theorem reorderFrame_eq (channels : ℕ) (f : List α) :
    reorderFrame channels f = if channels = 6 ∨ channels = 8 then reorderAt channels f 0 else f := rfl

theorem frames_reorder (channels n : ℕ) (xs : List α) (hlen : n*channels ≤ xs.length) :
    frames channels n (reorder channels n xs) = (frames channels n xs).map (reorderFrame channels) := by
  have hmem (f : List α) (hf : f ∈ frames channels n xs) : f.length = channels := length_of_mem_frames hlen hf
  by_cases hsurround : channels = 6 ∨ channels = 8
  · have hloop := reorderLoop_append channels n [] xs hlen (by omega)
    simp only [List.nil_append,List.length_nil] at hloop
    have hback := frames_flatten channels ((frames channels n xs).map (reorderAt channels · 0)) (xs.drop (n*channels))
      (by simpa using hmem)
    rw [List.length_map,length_frames] at hback
    rw [reorder,if_pos hsurround,hloop,hback]
    simp only [funext (reorderFrame_eq channels),if_pos hsurround]
  · rw [reorder,if_neg hsurround,funext (reorderFrame_eq channels)]
    simp only [if_neg hsurround,List.map_id']

/-- What the loop offers to ALSA is what the worker wrote, frame by frame. -/
theorem frames_workspace (channels written : ℕ) (workspace samples : List α) (hlen : samples.length = written*channels) :
    frames channels written (reorder channels written (Buffer.splice workspace 0 samples)) =
      (frames channels written samples).map (reorderFrame channels) := by
  have hsplice : Buffer.splice workspace 0 samples = samples ++ workspace.drop (0+samples.length) := by
    simp [Buffer.splice]
  rw [frames_reorder _ _ _ (by rw [hsplice,List.length_append]; omega),hsplice,frames_append _ _ _ _ hlen]

/-- Every frame taken from the worker has gone to ALSA, in order and once, but for
the last chunk while `snd_pcm_writei` has not dealt with it. -/
def Delivered (s : State α) : Prop :=
  s.obtained.map (reorderFrame s.outputChannels) = s.accepted ++ s.pending

/-- Nothing of a chunk is left behind by the step: `snd_pcm_writei` takes all of
it, or fails in a way that ends the loop. -/
def TakesAll (s : State α) : Action α → Prop
  | .writei res => ∀ written : ℕ, s.io = .submitting written → res < 0 ∨ res = written
  | .recover res => ∀ (err : ℤ) (written : ℕ), s.io = .recovering err (.writei written) → res < 0 ∨ written = 0
  | _ => True

@[simp] def MainPc.constructing : MainPc → Bool
  | .opening | .configuring _ | .sizing | .starting => true
  | _ => false

/-- What is on offer to ALSA at each point of the loop. -/
def OnOffer (s : State α) : IoPc → Prop
  | .unstarted => s.obtained = [] ∧ s.accepted = [] ∧ s.pending = []
  | .submitting written => s.pending = frames s.outputChannels written s.workspace
  | .recovering _ (.writei written) => s.pending.length = written
  | .cleanup | .returned => True
  | _ => s.pending = []

structure Accounting (s : State α) : Prop where
  early : s.main.constructing = true → s.io = .unstarted
  offer : OnOffer s s.io
  balance : s.accepted.length+s.pending.length ≤ s.obtained.length

theorem initial_accounting (cfg : Config) : Accounting (initial α cfg) := by
  constructor <;> simp [initial,OnOffer]

variable {s t : State α} {a : Action α}

theorem Accounting.main (hs : Accounting s) (hmain : t.main.constructing = true → s.main.constructing = true)
    (hio : t.io = s.io) (hchannels : t.outputChannels = s.outputChannels) (hwork : t.workspace = s.workspace)
    (hobtained : t.obtained = s.obtained) (haccepted : t.accepted = s.accepted) (hpending : t.pending = s.pending) :
    Accounting t where
  early h := by rw [hio]; exact hs.early (hmain h)
  offer := by
    have hoffer := hs.offer
    unfold OnOffer at hoffer ⊢
    rw [hio,hchannels,hwork,hobtained,haccepted,hpending]
    exact hoffer
  balance := by rw [hobtained,haccepted,hpending]; exact hs.balance

theorem Accounting.built (hs : Accounting s) (hio : s.io ≠ .unstarted) : s.main.constructing = false := by
  by_contra h
  exact hio (hs.early (by simpa using h))

variable [Zero α]

theorem Accounting.step (hs : Accounting s) (hm : Move s a t) : Accounting t := by
  have hbuilt := hs.built
  have hoffer := hs.offer
  have hbal := hs.balance
  cases hm with
  | openFails hpc | opens hpc | configureFails hpc | configures hpc | grow hpc | sized hpc | initThrows hpc | stop hpc
  | destroy hpc | clear hpc | skip hpc | join hpc =>
    exact hs.main (by simp_all) rfl rfl rfl rfl rfl rfl
  | start hpc =>
    have hio := hs.early (by rw [hpc]; rfl)
    rw [hio] at hoffer
    exact ⟨by simp,hoffer.2.2,hbal⟩
  | @leave destroying hpc =>
    exact hs.main (by cases destroying <;> simp) rfl rfl rfl rfl rfl rfl
  | prepare hpc | drain hpc | close hpc | cleanup hpc | updateFails hpc | updates hpc | waitFails hpc | waits hpc =>
    rw [hpc] at hoffer hbuilt
    exact ⟨by simp_all [State.call],by first | exact hoffer | trivial,hbal⟩
  | test hpc =>
    rw [hpc] at hoffer hbuilt
    refine ⟨by simp_all,?_,hbal⟩
    cases s.workerRunning <;> exact hoffer
  | recoverFails hpc =>
    rw [hpc] at hbuilt
    exact ⟨by simp_all [State.call],trivial,hbal⟩
  | @recovers _ _ what hpc =>
    rw [hpc] at hoffer hbuilt
    cases what with
    | availUpdate | wait => exact ⟨by simp_all [State.call,State.release],hoffer,hbal⟩
    | writei written =>
      refine ⟨by simp_all [State.call,State.release],rfl,?_⟩
      simp only [State.call,State.release,List.length_nil]
      omega
  | obtains hpc hle hlen =>
    rw [hpc] at hoffer hbuilt
    have hnil : s.pending = [] := hoffer
    rw [hnil] at hbal
    refine ⟨by simp_all,rfl,?_⟩
    simpa using hbal
  | submitFails hpc =>
    rw [hpc] at hoffer hbuilt
    have hpending : s.pending = _ := hoffer
    exact ⟨by simp_all [State.call],by simp [OnOffer,State.call,hpending],hbal⟩
  | @submits written res hpc hres hle =>
    rw [hpc] at hoffer hbuilt
    have hpending : s.pending = _ := hoffer
    rw [hpending,length_frames] at hbal
    refine ⟨by simp_all [State.call,State.release],rfl,?_⟩
    simp only [State.call,State.release,List.length_append,length_frames,List.length_nil]
    omega

/-- Whether everything has been delivered changes exactly at a step that leaves
part of a chunk behind. -/
theorem Accounting.delivered_step (hs : Accounting s) (hm : Move s a t) :
    Delivered t ↔ Delivered s ∧ TakesAll s a := by
  have hoffer := hs.offer
  have hbal := hs.balance
  cases hm with
  | openFails hpc | opens hpc | configureFails hpc | configures hpc | grow hpc | sized hpc | initThrows hpc | stop hpc
  | destroy hpc | clear hpc | skip hpc | join hpc | leave hpc
  | prepare hpc | drain hpc | close hpc | cleanup hpc | updateFails hpc | updates hpc | waitFails hpc | waits hpc
  | test hpc =>
    simp [Delivered,TakesAll,State.call]
  | start hpc =>
    have hio := hs.early (by rw [hpc]; rfl)
    rw [hio] at hoffer
    obtain ⟨hobtained,haccepted,hpending⟩ := hoffer
    simp [Delivered,TakesAll,hobtained,haccepted,hpending]
  | recoverFails hpc hres =>
    simp only [Delivered,TakesAll,State.call,hres,true_or,implies_true,and_true]
  | @recovers _ res what hpc hres =>
    rw [hpc] at hoffer
    cases what with
    | availUpdate | wait => simp [Delivered,TakesAll,State.call,State.release,hpc]
    | writei written =>
      have hlen : s.pending.length = written := hoffer
      have htakes : TakesAll s (.recover res) ↔ s.pending = [] := by
        simp [TakesAll,hpc,not_lt.mpr hres,← List.length_eq_zero_iff,hlen]
      rw [htakes]
      simp only [Delivered,State.call,State.release,List.append_nil]
      constructor
      · intro h
        have hcount := congrArg List.length h
        rw [List.length_map] at hcount
        have hnil : s.pending = [] := List.length_eq_zero_iff.mp (by omega)
        exact ⟨by rw [hnil,List.append_nil]; exact h,hnil⟩
      · rintro ⟨h,hnil⟩
        rwa [hnil,List.append_nil] at h
  | obtains hpc hle hlen =>
    rw [hpc] at hoffer
    have hnil : s.pending = [] := hoffer
    simp only [Delivered,TakesAll,List.map_append,and_true,hnil,List.append_nil,frames_workspace _ _ _ _ hlen,
      List.append_cancel_right_eq]
  | submitFails hpc hres => simp [Delivered,TakesAll,State.call,hres]
  | @submits written res hpc hres hle =>
    rw [hpc] at hoffer
    have hpending : s.pending = frames s.outputChannels written s.workspace := hoffer
    have htakes : TakesAll s (.writei res) ↔ res.toNat = written := by
      simp only [TakesAll,hpc,IoPc.submitting.injEq,forall_eq',not_lt.mpr hres,false_or]
      omega
    rw [htakes]
    simp only [Delivered,State.call,State.release,List.append_nil]
    constructor
    · intro h
      have hcount := congrArg List.length h
      simp only [List.length_map,List.length_append,length_frames] at hcount
      rw [hpending,length_frames] at hbal
      have hall : res.toNat = written := by omega
      exact ⟨by rw [hpending,← hall]; exact h,hall⟩
    · rintro ⟨h,hall⟩
      rw [hall,← hpending]
      exact h

/-- At the end of a run everything has been delivered exactly when no step of it has
left part of a chunk behind. -/
theorem chunks_delivered_iff {cfg : Config} {as : List (Action α)} (h : run AlsaOutputDevice.step (initial α cfg) as = some s) :
    Delivered s ↔ Along AlsaOutputDevice.step TakesAll (initial α cfg) as := by
  have hstep (u v : State α) (b : Action α) (hu : Accounting u) (hb : AlsaOutputDevice.step u b = some v) :
      Accounting v ∧ (Delivered v ↔ Delivered u ∧ TakesAll u b) :=
    ⟨hu.step (.of_step hb),hu.delivered_step (.of_step hb)⟩
  have hinit : Delivered (initial α cfg) := rfl
  rw [run_iff_along (fun u b v => hstep u v b) h (initial_accounting cfg)]
  simp [hinit]

def playWhole : List (Action ℕ) := construct ++ [.io,.availUpdate 2,.write 2 [1,2],.writei 2,.wait 1]

theorem chunks_delivered_playWhole : Along AlsaOutputDevice.step TakesAll (initial ℕ mono) playWhole := by
  have hrun : (run AlsaOutputDevice.step (initial ℕ mono) playWhole).isSome := rfl
  exact (chunks_delivered_iff (Option.some_get hrun).symm).mp rfl

/-- `snd_pcm_writei` takes one frame of two; the loop goes on with the next chunk. -/
def playShort : List (Action ℕ) :=
  construct ++ [.io,.availUpdate 2,.write 2 [1,2],.writei 1,.wait 1,.io,.availUpdate 1,.write 1 [3],.writei 1]

theorem frame_lost_after_short_write : ∃ s : State ℕ, Reachable mono s ∧ s.obtained = [[1],[2],[3]] ∧
    s.accepted = [[1],[3]] ∧ s.pending = [] ∧ ¬ Delivered s := by
  have hrun : (run AlsaOutputDevice.step (initial ℕ mono) playShort).isSome := rfl
  have hreach := reachable_of_run (Option.some_get hrun).symm
  have hlost : ¬ ([[1],[2],[3]] : List (List ℕ)) = [[1],[3]] ++ [] := by decide
  exact ⟨_,hreach,rfl,rfl,rfl,hlost⟩

end AlsaOutputDevice
end AudioOutput
