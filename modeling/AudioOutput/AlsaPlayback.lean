import AudioOutput.AlsaChannels
import AudioOutput.AlsaHandle
import AudioOutput.Playback

/-!
# Playing through ALSA

The ALSA device as a player: together with the mixahead worker that its `init` makes for
the format ALSA has given. The I/O thread of the device is the one that calls `write`.
-/

namespace AudioOutput

open Transition

universe u

namespace AlsaOutputDevice

variable {α : Type u} {s t : State α} {a : Action α}

theorem flatten_frames {channels n : ℕ} {xs : List α} (h : xs.length = n*channels) : (frames channels n xs).flatten = xs := by
  induction n generalizing xs with
  | zero => simpa [frames] using (List.length_eq_zero_iff.mp (by simpa using h)).symm
  | succ n ih =>
    rw [Nat.succ_mul] at h
    rw [frames,List.flatten_cons,ih (by rw [List.length_drop]; omega),List.take_append_drop]

/-- Points of the I/O thread between the allocation of the workspace and its release. -/
@[simp] def IoPc.looping : IoPc → Bool
  | .unstarted | .awaiting | .returned => false
  | _ => true

/-- The workspace has room for what is asked of the worker. -/
structure Sized (s : State α) : Prop where
  workspace : s.io.looping = true → s.workspace.length = s.alsaBufferFrames*s.outputChannels
  available : ∀ n, s.io = .obtaining n → n ≤ s.alsaBufferFrames

theorem initial_sized (cfg : Config) : Sized (initial α cfg) := by
  constructor <;> simp [initial]

theorem Checked.looping_resume (what : Checked) : what.resume.looping = true ∧ ∀ n, what.resume ≠ .obtaining n := by
  cases what <;> simp [Checked.resume]

theorem Sized.keep (hs : Sized s) (hlooping : t.io.looping = true → s.io.looping = true)
    (hworkspace : t.workspace.length = s.workspace.length) (hframes : t.alsaBufferFrames = s.alsaBufferFrames)
    (hchannels : t.outputChannels = s.outputChannels) (hobtaining : ∀ n, t.io = .obtaining n → s.io = .obtaining n) :
    Sized t where
  workspace h := by rw [hworkspace,hframes,hchannels,hs.workspace (hlooping h)]
  available n h := by rw [hframes]; exact hs.available n (hobtaining n h)

theorem Sized.early (hio : t.io.looping = false) : Sized t where
  workspace h := by rw [hio] at h; cases h
  available n h := by rw [h] at hio; cases hio

variable [Zero α]

theorem Sized.step (hs : Sized s) (hinv : HandleInv s) (hm : Move s a t) : Sized t := by
  cases hm with
  | openFails hpc | opens hpc | configureFails hpc | configures hpc | grow hpc | sized hpc | initThrows hpc =>
    have hio : s.io = .unstarted := hinv.threadless (by simp [hpc])
    exact .early (by simp [State.call,hio])
  | start hpc => exact .early rfl
  | stop | destroy | clear | skip | join | leave => exact hs.keep id rfl rfl rfl fun _ => id
  | prepare hpc => exact ⟨fun _ => by simp,by simp⟩
  | test hpc =>
    refine hs.keep (by simp [hpc]) rfl rfl rfl fun n h => ?_
    cases hrunning : s.workerRunning <;> simp [hrunning] at h
  | drain hpc | close hpc | updateFails hpc | recoverFails hpc | submitFails hpc | submits hpc | waitFails hpc
  | waits hpc =>
    exact hs.keep (by simp [hpc]) rfl rfl rfl (by simp)
  | cleanup hpc => exact .early rfl
  | @updates res hpc hres =>
    refine ⟨fun _ => hs.workspace (by simp [hpc]),fun n h => ?_⟩
    have hn := IoPc.obtaining.inj h
    subst hn
    change _ ≤ s.alsaBufferFrames
    split <;> omega
  | @recovers err res what hpc hres =>
    exact hs.keep (by simp [hpc]) rfl rfl rfl fun n h => absurd h (what.looping_resume.2 n)
  | @obtains available written samples hpc hle hlen =>
    have hsize := hs.workspace (by simp [hpc])
    have hfits : 0+samples.length ≤ s.workspace.length := by
      rw [hsize,hlen,Nat.zero_add]
      exact Nat.mul_le_mul_right _ (hle.trans (hs.available _ hpc))
    exact hs.keep (by simp [hpc]) (by rw [length_reorder,Buffer.length_splice _ hfits]) rfl rfl (by simp)

theorem Reachable.sized {cfg : Config} (h : Reachable cfg s) : Sized s := by
  have hboth := Reaches.invariant (I := fun s => HandleInv s ∧ Sized s) h ⟨initial_handleInv cfg,initial_sized cfg⟩
    fun _ _ _ _ ⟨hinv,hs⟩ hstep => ⟨hinv.step (.of_step hstep),hs.step hinv (.of_step hstep)⟩
  exact hboth.2

theorem Reachable.accounting {cfg : Config} (h : Reachable cfg s) : Accounting s :=
  Reaches.invariant h (initial_accounting cfg) fun _ _ _ _ hs hstep => hs.step (.of_step hstep)

@[simp] def MainPc.gone : MainPc → Bool
  | .threw _ | .destroyed => true
  | _ => false

structure Unheard (s t : State α) : Prop where
  obtained : t.obtained = s.obtained
  started : s.io ≠ .unstarted → t.io ≠ .unstarted ∧ t.outputChannels = s.outputChannels
  obtaining : ∀ n, s.io = .obtaining n → t.io = .obtaining n ∧ t.workspace = s.workspace
  gone : s.main.gone = true → t.main.gone = true

theorem Move.starts (hm : Move s a t) (hs : s.io = .unstarted) (ht : t.io ≠ .unstarted) :
    a = .main ∧ s.main = .starting ∧ t.main = .constructed ∧ t.outputChannels = s.locals.alsaChannels := by
  cases hm with
  | start hpc => exact ⟨rfl,hpc,rfl,rfl⟩
  | _ => simp_all [State.call]

theorem Checked.resume_ne_unstarted (what : Checked) : what.resume ≠ .unstarted := by cases what <;> simp [Checked.resume]

theorem Move.unheard (hm : Move s a t) (hinv : HandleInv s) (ha : ∀ n samples, a ≠ .write n samples) : Unheard s t := by
  cases hm with
  | openFails hpc | opens hpc | configureFails hpc | configures hpc | grow hpc | sized hpc | initThrows hpc | start hpc =>
    have hio : s.io = .unstarted := hinv.threadless (by simp [hpc])
    exact ⟨rfl,fun h => absurd hio h,by simp [hio],by simp [hpc]⟩
  | stop hpc | destroy hpc | clear hpc | skip hpc | join hpc | leave hpc =>
    exact ⟨rfl,fun h => ⟨h,rfl⟩,fun _ h => ⟨h,rfl⟩,by simp [hpc]⟩
  | prepare hpc | drain hpc | close hpc | cleanup hpc | updateFails hpc | updates hpc | recoverFails hpc
  | submitFails hpc | submits hpc | waitFails hpc | waits hpc =>
    exact ⟨rfl,fun _ => ⟨by simp,rfl⟩,by simp [hpc],id⟩
  | test hpc => exact ⟨rfl,fun _ => ⟨by cases s.workerRunning <;> simp,rfl⟩,by simp [hpc],id⟩
  | @recovers _ _ what hpc => exact ⟨rfl,fun _ => ⟨what.resume_ne_unstarted,rfl⟩,by simp [hpc],id⟩
  | obtains => exact absurd rfl (ha _ _)

/-- The frames taken over are frames of the device's format. -/
def Framed (s : State α) : Prop := ∀ f ∈ s.obtained, f.length = s.outputChannels

theorem Framed.step (hs : Framed s) (hinv : HandleInv s) (hacc : Accounting s) (hm : Move s a t) : Framed t := by
  by_cases ha : ∃ n samples, a = .write n samples
  · obtain ⟨n,samples,rfl⟩ := ha
    cases hm with
    | obtains hpc hle hlen =>
      intro f hf
      rcases List.mem_append.mp hf with hold | hnew
      · exact hs f hold
      · exact length_of_mem_frames hlen.ge hnew
  · have hun := hm.unheard hinv fun n samples hwrite => ha ⟨n,samples,hwrite⟩
    intro f hf
    rw [hun.obtained] at hf
    by_cases hio : s.io = .unstarted
    · have hoffer := hacc.offer
      rw [hio] at hoffer
      rw [hoffer.1] at hf
      cases hf
    · rw [(hun.started hio).2]
      exact hs f hf

theorem Reachable.framed {cfg : Config} (h : Reachable cfg s) : Framed s := by
  have hboth := Reaches.invariant (I := fun s => (HandleInv s ∧ Accounting s) ∧ Framed s) h
    ⟨⟨initial_handleInv cfg,initial_accounting cfg⟩,fun _ hf => by cases hf⟩ fun _ _ _ _ ⟨⟨hinv,hacc⟩,hs⟩ hstep =>
      ⟨⟨hinv.step (.of_step hstep),hacc.step (.of_step hstep)⟩,hs.step hinv hacc (.of_step hstep)⟩
  exact hboth.2

def State.initializing (s : State α) : Option (ℕ × ℕ) :=
  if s.main = .starting then some (s.locals.alsaChannels,s.locals.alsaSr) else none

def State.leavesInit (s : State α) : Action α → Bool
  | .main => s.main == .starting
  | _ => false

def State.leavesAwait (s : State α) : Action α → Bool
  | .io => s.io == .awaiting
  | _ => false

def State.asks (s : State α) : Option (ℕ × List α) :=
  match s.io with
  | .obtaining available => some (available,s.workspace)
  | _ => none

def Action.isWrite : Action α → Bool
  | .write _ _ => true
  | _ => false

omit [Zero α] in
theorem State.asks_eq_some {n : ℕ} {destination : List α} :
    s.asks = some (n,destination) ↔ s.io = .obtaining n ∧ s.workspace = destination := by
  unfold State.asks
  split <;> simp_all

@[reducible] def player (cfg : Config) : Player α where
  State := State α
  Action := Action α
  initial := initial α cfg
  step := step
  initializing := State.initializing
  leavesInit := State.leavesInit
  leavesAwait := State.leavesAwait
  asks := State.asks
  answers := Action.write
  isAnswer := Action.isWrite
  started s := s.io != .unstarted
  gone s := s.main.gone
  channels := State.outputChannels
  heard s := s.obtained.flatten

theorem player_sound (cfg : Config) : (player (α := α) cfg).Sound where
  unstarted := rfl
  silent := rfl
  own {s a t} h hstep hown := by
    have hun := (Move.of_step hstep).unheard (Reachable.handleInv h) fun n samples ha => by
      rw [ha] at hown
      cases hown
    exact {
      heard := congrArg List.flatten hun.obtained
      started := by simpa using hun.started
      asks := fun ⟨n,destination⟩ hasks => by
        obtain ⟨hpc,hworkspace⟩ := State.asks_eq_some.mp hasks
        obtain ⟨hio,hsame⟩ := hun.obtaining n hpc
        exact State.asks_eq_some.mpr ⟨hio,hsame.trans hworkspace⟩
      gone := hun.gone }
  starts {s a t} h hstep hs ht := by
    obtain ⟨rfl,hmain,-,hchannels⟩ := (Move.of_step hstep).starts (by simpa using hs) (by simpa using ht)
    simp [State.leavesInit,State.initializing,hmain,hchannels]
  asking {s count destination} h hasks := by
    obtain ⟨hpc,rfl⟩ := State.asks_eq_some.mp hasks
    have hsized := Reachable.sized h
    have hinv := Reachable.handleInv h
    have hmain : s.main.gone = false := by
      cases hmain : s.main with
      | threw message =>
        have hnone := hinv.threadless (by simp [hmain])
        simp [hpc] at hnone
      | destroyed =>
        have hreturned := hinv.stopDone (by simp [hmain])
        simp [hpc] at hreturned
      | _ => rfl
    refine ⟨by simp [hpc],hmain,?_⟩
    rw [hsized.workspace (by rw [hpc]; rfl)]
    exact Nat.mul_le_mul_right _ (hsized.available _ hpc)
  answered {s n samples t} hstep := by
    have hwrite : step s (.write n samples) = some t := hstep
    cases Move.of_step hwrite with
    | obtains hpc hle hlen =>
      refine ⟨?_,by simp,rfl,rfl⟩
      dsimp only
      rw [List.flatten_append,flatten_frames hlen]
  accepts {s count destination n samples} hasks hle hlen := by
    obtain ⟨hpc,-⟩ := State.asks_eq_some.mp hasks
    change (write s n samples).isSome = true
    have hlen' : samples.length = n*s.outputChannels := hlen
    rw [write,hpc]
    simp [hle,hlen']

end AlsaOutputDevice

namespace AlsaPlayback

open AlsaOutputDevice (Framed TakesAll Delivered)

section Player

variable {α : Type u}

/-- What the application asks ALSA for, and the worker for what ALSA gives. -/
@[reducible] def config [Zero α] (device : AlsaOutputDevice.Config) (worker : OutputWorkerThread.Config α) (outputSr : ℕ) :
    Playback.Config α where
  player := AlsaOutputDevice.player device
  worker := worker
  outputSr := outputSr

variable [Zero α] {device : AlsaOutputDevice.Config} {worker : OutputWorkerThread.Config α} {outputSr : ℕ}
  {s : Playback.State (config device worker outputSr)}

/-- While the device waits for frames, it can call `write` on a worker that is there, with
room for the frames, or its call is under way, or the frames can be taken over. -/
theorem handover (h : Playback.Reachable s) {available : ℕ} (hpc : s.device.io = .obtaining available) :
    Playback.Handover s available s.device.workspace :=
  h.hands_over (AlsaOutputDevice.player_sound device) (AlsaOutputDevice.State.asks_eq_some.mpr ⟨hpc,rfl⟩)

theorem obtained_eq (h : Playback.Reachable s) (hsize : 0 < worker.bufferSize) :
    s.device.obtained = AlsaOutputDevice.frames s.device.outputChannels s.device.obtained.length
      ((OutputWorkerThread.stream worker).take (s.device.obtained.length*s.device.outputChannels)) := by
  have hdevice : AlsaOutputDevice.Reachable device s.device := h.device
  have hframed : Framed s.device := hdevice.framed
  have hheard : s.device.obtained.flatten = (OutputWorkerThread.stream worker).take s.device.obtained.flatten.length :=
    h.heard (AlsaOutputDevice.player_sound device) hsize
  have hback := AlsaOutputDevice.frames_flatten _ _ [] hframed
  rw [List.append_nil,hheard,List.length_flatten,List.map_congr_left hframed,List.map_const',List.sum_replicate,
    smul_eq_mul] at hback
  exact hback.symm

def LeavesNothing (s : Playback.State (config device worker outputSr)) (a : Playback.Action (config device worker outputSr)) :
    Prop := ∀ b : AlsaOutputDevice.Action α, a = .device b → TakesAll s.device b

theorem delivered_of_along {as : List (Playback.Action (config device worker outputSr))}
    (hall : Along Playback.step LeavesNothing (Playback.initial (config device worker outputSr)) as)
    (h : run Playback.step (Playback.initial (config device worker outputSr)) as = some s) : Delivered s.device := by
  have hinit : Playback.Reachable (Playback.initial (config device worker outputSr)) ∧
      Delivered (Playback.initial (config device worker outputSr)).device := ⟨.refl,rfl⟩
  refine (Along.invariant (I := fun s => Playback.Reachable s ∧ Delivered s.device) ?_ hall h hinit).2
  rintro s a t ⟨hr,hs⟩ htakes hstep
  refine ⟨Reaches.tail hr trivial hstep,?_⟩
  have hreach : AlsaOutputDevice.Reachable device s.device := hr.device
  have hdevice {b : AlsaOutputDevice.Action α} {d : AlsaOutputDevice.State α} (hd : AlsaOutputDevice.step s.device b = some d)
      (hb : TakesAll s.device b) : Delivered d :=
    (hreach.accounting.delivered_step (.of_step hd)).mpr ⟨hs,hb⟩
  cases Playback.Move.of_step hstep with
  | device hlets hd => exact hdevice hd (htakes _ rfl)
  | worker => exact hs
  | call => exact hs
  | @answer r d hreturn hd =>
    have hwrite : AlsaOutputDevice.step s.device (.write r.written (Playback.stored _ r)) = some d := hd
    exact hdevice hwrite trivial

end Player

open SampleFormatConverter

variable {α : Type} [Zero α] [Add α] [Mul α] (lit : ℚ → α) {cfg : SampleFormatConverter.Config α}
  {f : SpeexResampler.Filter α cfg.inputChannels} (hf : cfg.Filters f) (h : cfg.NoOverflow)

/-- A device that ALSA has given the output format of the converter. -/
@[reducible] noncomputable def alsaConfig (mixahead : ℕ) (unspecified : ℕ → ℕ → α) : Playback.Config α :=
  config ⟨cfg.inputChannels,cfg.inputSr⟩ (workerConfig lit h hf.keepsUp mixahead unspecified) cfg.outputSr

def open48kHz : List (AlsaOutputDevice.Action ℚ) :=
  [.pcmOpen 0,.configure 0 0,.configure 0 0,.configure 0 2,.configure 0 32000,.configure 0 0,.configure 0 4096,.main,
    .configure 0 2,.configure 0 0,.configure 0 0,.configure 0 0,.configure 0 0,.configure 0 0,.configure 0 0,.configure 0 0]

/-- `OutputWorkerThread.countingUp` played through ALSA. -/
@[reducible] noncomputable def countingConfig : Playback.Config ℚ :=
  alsaConfig id OutputWorkerThread.countingUp_filters OutputWorkerThread.countingUp_noOverflow 1 fun _ _ => 0

def playFrame : List (Playback.Action countingConfig) :=
  List.flatten [open48kHz.map .device,List.replicate 5 (.worker .owner),
    [.device AlsaOutputDevice.Action.main],List.replicate 7 (.worker .worker),
    [.device AlsaOutputDevice.Action.io,.device AlsaOutputDevice.Action.io,.device (AlsaOutputDevice.Action.availUpdate 1),.call],
    List.replicate 6 (.worker .io)]

/-- Here the call has returned. -/
theorem handover_frame : ∃ s : Playback.State countingConfig, s.device.io = .obtaining 1 ∧
    Playback.Handover s 1 s.device.workspace := by
  have hrun : (run Playback.step (Playback.initial countingConfig) playFrame).isSome := rfl
  have hreach : Playback.Reachable _ := Reaches.of_run (fun _ _ => trivial) (Option.some_get hrun).symm
  exact ⟨_,rfl,handover hreach rfl⟩

end AlsaPlayback
end AudioOutput
