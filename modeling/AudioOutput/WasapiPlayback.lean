import AudioOutput.WasapiChunks
import AudioOutput.Playback

/-!
# Playing through WASAPI

The WASAPI device as a player: together with the mixahead worker that its `init` makes for
the mix format. The mixing thread is the one that calls `write`, and what it gets goes on to
the endpoint.
-/

namespace AudioOutput

open Transition

universe u

namespace WasapiMixing

variable {α : Type u} {s t : State α} {a : Action α}

def State.initializing (s : State α) : Option (ℕ × ℕ) := if s.control.main = .starting then some s.format else none

def State.leavesInit (s : State α) : Action α → Bool
  | .main => s.control.main == .starting
  | _ => false

def State.leavesAwait (s : State α) : Action α → Bool
  | .mixing => s.control.mixing == .awaiting
  | _ => false

def State.asks (s : State α) : Option (ℕ × List α) :=
  match s.control.mixing, s.body with
  | .mixing, .obtaining toRequest => some (toRequest,s.intermediateStorage)
  | _, _ => none

def Action.isWrite : Action α → Bool
  | .write _ _ => true
  | _ => false

theorem State.asks_eq_some {n : ℕ} {destination : List α} : s.asks = some (n,destination) ↔
    s.control.mixing = .mixing ∧ s.body = .obtaining n ∧ s.intermediateStorage = destination := by
  unfold State.asks
  split <;> simp_all

variable [Zero α]

@[reducible] def player (α : Type u) [Zero α] : Player α where
  State := State α
  Action := Action α
  initial := {}
  step := step
  initializing := State.initializing
  leavesInit := State.leavesInit
  leavesAwait := State.leavesAwait
  asks := State.asks
  answers := Action.write
  isAnswer := Action.isWrite
  started s := s.control.mixing != .unstarted
  gone s := s.control.main.gone
  channels := State.outputChannels
  heard := State.obtained

theorem unheard_of_fields (hobtained : t.obtained = s.obtained)
    (hstarted : s.control.mixing ≠ .unstarted → t.control.mixing ≠ .unstarted ∧ t.outputChannels = s.outputChannels)
    (hasks : ∀ n, s.control.mixing = .mixing → s.body = .obtaining n → t.asks = s.asks)
    (hgone : s.control.main.gone = true → t.control.main.gone = true) : (player α).Unheard s t where
  heard := hobtained
  started := by simpa using hstarted
  asks := fun ⟨n,destination⟩ h => by
    obtain ⟨hpc,hbody,-⟩ := State.asks_eq_some.mp h
    exact (hasks n hpc hbody).trans h
  gone := hgone

theorem Move.unheard (hm : Move s a t) (hthread : WasapiOutputDevice.ThreadInv s.control)
    (ha : ∀ n samples, a ≠ .write n samples) : (player α).Unheard s t := by
  -- a step of the application's thread, which sees nothing of the request
  have happ {c : WasapiOutputDevice.State} (format : ℕ × ℕ) (h : c.mixing = s.control.mixing ∧ s.control.main.gone = false) :
      (player α).Unheard s { s with control := c, format := format } := by
    refine unheard_of_fields rfl (fun hs => ⟨by rw [h.1]; exact hs,rfl⟩) (fun n hpc hbody => ?_) fun hs => ?_
    · simp [State.asks,h.1]
    · rw [h.2] at hs
      cases hs
  cases hm with
  | main hpc h => exact happ s.format (mainThread_fields h hpc)
  | client h => exact happ _ (clientCall_fields h)
  | initThrows hpc => exact happ s.format ⟨rfl,by simp [hpc]⟩
  | stop h => exact happ s.format (beginStop_fields h)
  | starts hpc =>
    have hunstarted : s.control.mixing = .unstarted := hthread.threadless (by simp [hpc])
    exact unheard_of_fields rfl (fun hs => absurd hunstarted hs) (by simp [hunstarted]) (by simp [hpc])
  | mixes hwaiting hpc h =>
    obtain ⟨hmain,hstarted,-⟩ := mixingThread_fields h hpc
    refine unheard_of_fields rfl (fun _ => ⟨hstarted,rfl⟩) (fun n hmixing hbody => ?_) fun hs => (congrArg _ hmain).trans hs
    simp [hwaiting hmixing] at hbody
  | exits hpc => exact unheard_of_fields rfl (fun _ => ⟨by simp,rfl⟩) (by simp [hpc]) id
  | coInitialize h =>
    obtain ⟨hpc,hmain,hnext⟩ := coInitialize_fields h
    refine unheard_of_fields rfl (fun _ => ⟨?_,rfl⟩) (by simp [hpc]) fun hs => (congrArg _ hmain).trans hs
    rcases hnext with hd | hd <;> simp [hd]
  | connects hpc => exact unheard_of_fields rfl (fun _ => ⟨by simp,rfl⟩) (by simp [hpc]) id
  | queries hpc hbody => exact unheard_of_fields rfl (fun hs => ⟨hs,rfl⟩) (by simp [hbody]) id
  | continues | obtains => exact absurd rfl (ha _ _)
  | offers hpc hbody => exact unheard_of_fields rfl (fun hs => ⟨hs,rfl⟩) (by simp [hbody]) id
  | renders => exact unheard_of_fields rfl (fun hs => ⟨hs,rfl⟩) (fun _ _ _ => rfl) id

theorem Move.begins (hm : Move s a t) (hs : s.control.mixing = .unstarted) (ht : t.control.mixing ≠ .unstarted) :
    a = .main ∧ s.control.main = .starting ∧ t.outputChannels = s.format.1 := by
  cases hm with
  | starts hpc => exact ⟨rfl,hpc,rfl⟩
  | main hpc h => exact absurd ((mainThread_fields h hpc).1.trans hs) ht
  | client h => exact absurd ((clientCall_fields h).1.trans hs) ht
  | initThrows => exact absurd hs ht
  | stop h => exact absurd ((beginStop_fields h).1.trans hs) ht
  | mixes _ _ h => simp [WasapiOutputDevice.mixingThread,hs] at h
  | coInitialize h =>
    have hpc := (coInitialize_fields h).1
    rw [hs] at hpc
    cases hpc
  | exits hpc | connects hpc | queries hpc | continues hpc | obtains hpc | offers hpc =>
    rw [hs] at hpc
    cases hpc
  | renders => exact absurd hs ht

theorem player_sound : (player α).Sound where
  unstarted := rfl
  silent := rfl
  own {s a t} h hstep hown := by
    have hreach : Reachable s := h
    refine (Move.of_step hstep).unheard hreach.threadInv fun n samples ha => ?_
    rw [ha] at hown
    cases hown
  starts {s a t} h hstep hs ht := by
    obtain ⟨rfl,hmain,hchannels⟩ := (Move.of_step hstep).begins (by simpa using hs) (by simpa using ht)
    simp [State.leavesInit,State.initializing,hmain,hchannels]
  asking {s count destination} h hasks := by
    have hreach : Reachable s := h
    obtain ⟨hpc,hbody,rfl⟩ := State.asks_eq_some.mp hasks
    have hmain : s.control.main.gone = false := by
      by_contra hgone
      rcases WasapiOutputDevice.MainPc.of_gone (by simpa using hgone) with ⟨message,hmain⟩ | hmain
      · have hnone := hreach.threadInv.threadless (by simp [hmain])
        simp [hpc] at hnone
      · have hreturned := hreach.threadInv.destroyed hmain
        simp [hpc] at hreturned
    refine ⟨by simp [hpc],hmain,?_⟩
    rw [hreach.inv.storage (by simp [hpc])]
    exact Nat.mul_le_mul_right _ (hreach.inv.request _ hbody)
  answered {s n samples t} hstep := by
    have hwrite : step s (.write n samples) = some t := hstep
    cases Move.of_step hwrite with
    | continues hpc hbody => exact ⟨by simp,by simp,rfl,rfl⟩
    | obtains hpc hbody hpos hle hlen => exact ⟨rfl,by simp [hpc],rfl,rfl⟩
  accepts {s count destination n samples} hasks hle hlen := by
    obtain ⟨hpc,hbody,-⟩ := State.asks_eq_some.mp hasks
    have hlen' : samples.length = n*s.outputChannels := hlen
    change (write s n samples).isSome = true
    by_cases hnone : n = 0
    · rw [hnone,Nat.zero_mul] at hlen'
      simp [write,hpc,hbody,hnone,hlen']
    · simp [write,hpc,hbody,hle,hlen',hnone]

end WasapiMixing

namespace WasapiPlayback

open WasapiMixing (Takes Delivered)

section Player

variable {α : Type u}

/-- The worker is made for the mix format. -/
@[reducible] def config [Zero α] (worker : OutputWorkerThread.Config α) (outputSr : ℕ) : Playback.Config α where
  player := WasapiMixing.player α
  worker := worker
  outputSr := outputSr

variable [Zero α] {worker : OutputWorkerThread.Config α} {outputSr : ℕ} {s : Playback.State (config worker outputSr)}

def TakesIt (a : Playback.Action (config worker outputSr)) : Prop := ∀ b : WasapiMixing.Action α, a = .device b → Takes b

theorem offers_ok_step {t : Playback.State (config worker outputSr)} {a : Playback.Action (config worker outputSr)}
    (h : Playback.step s a = some t) :
    (∀ o ∈ t.device.offers, o.ok = true) ↔ (∀ o ∈ s.device.offers, o.ok = true) ∧ TakesIt a := by
  cases Playback.Move.of_step h with
  | @device b d _ hd =>
    have hdevice : WasapiMixing.step s.device b = some d := hd
    simpa only [TakesIt,Playback.Action.device.injEq,forall_eq'] using (WasapiMixing.Move.of_step hdevice).offers_ok
  | @answer r d _ hd =>
    have hwrite : WasapiMixing.step s.device (.write r.written (Playback.stored _ r)) = some d := hd
    simpa [TakesIt,Takes] using (WasapiMixing.Move.of_step hwrite).offers_ok
  | worker | call => simp [TakesIt]

/-- The history of the offers tells whether a `GetBuffer` of the run has failed. -/
theorem offers_ok_iff {as : List (Playback.Action (config worker outputSr))}
    (h : run Playback.step (Playback.initial (config worker outputSr)) as = some s) :
    (∀ o ∈ s.device.offers, o.ok = true) ↔ ∀ res, .device (WasapiMixing.Action.getBuffer res) ∈ as → res = 0 := by
  rw [run_iff_along (I := fun _ => True) (fun _ _ _ _ hv => ⟨trivial,offers_ok_step hv⟩) h trivial,along_label h]
  constructor
  · rintro ⟨-,hall⟩ res hmem
    exact hall _ hmem _ rfl res rfl
  · intro hall
    refine ⟨fun o ho => (by cases ho),fun a ha b hb res hres => ?_⟩
    subst hb hres
    exact hall res ha

/-- What the endpoint has been given, or is being offered, is in order what has been taken
from the worker, and all of it as long as no `GetBuffer` fails. -/
theorem given {as : List (Playback.Action (config worker outputSr))} (hchannels : 0 < worker.destinationChannels)
    (h : run Playback.step (Playback.initial (config worker outputSr)) as = some s) :
    (s.device.packets.flatten ++ s.device.pending).Sublist s.device.obtained ∧
      (Delivered s.device ↔ ∀ res, .device (WasapiMixing.Action.getBuffer res) ∈ as → res = 0) := by
  have hreach : Playback.Reachable s := Reaches.of_run (fun _ _ => trivial) h
  have hdevice : WasapiMixing.Reachable s.device := hreach.device
  refine ⟨hdevice.inv.packets_sublist,?_⟩
  rw [← offers_ok_iff h]
  by_cases hmixing : s.device.control.mixing = .unstarted
  -- nothing has been taken and nothing offered
  · have hoffers := (hdevice.inv.early (by simp [hmixing])).2
    simp [Delivered,hdevice.inv.obtained,WasapiMixing.State.packets,hoffers]
  · have hsame : s.device.outputChannels = worker.destinationChannels :=
      (hreach.joined WasapiMixing.player_sound).channels (by simpa using hmixing)
    exact hdevice.inv.delivered_iff (hsame ▸ hchannels)

end Player

open SampleFormatConverter

variable {α : Type} [Zero α] [Add α] [Mul α] (lit : ℚ → α) {cfg : SampleFormatConverter.Config α}
  {f : SpeexResampler.Filter α cfg.inputChannels} (hf : cfg.Filters f) (h : cfg.NoOverflow)

/-- A device whose mix format is the output format of the converter. -/
@[reducible] noncomputable def wasapiConfig (mixahead : ℕ) (unspecified : ℕ → ℕ → α) : Playback.Config α :=
  config (workerConfig lit h hf.keepsUp mixahead unspecified) cfg.outputSr

/-- In every run of the threads, whatever COM answers, the samples that the device takes from
its worker are the first of the callback's blocks, filtered to the rate and remixed to the
channels of the mix format. The endpoint gets them in order; it gets all of them exactly
when no `GetBuffer` has failed. -/
theorem wasapi_plays {mixahead : ℕ} {unspecified : ℕ → ℕ → α}
    {as : List (Playback.Action (wasapiConfig lit hf h mixahead unspecified))}
    {s : Playback.State (wasapiConfig lit hf h mixahead unspecified)}
    (hframes : 1 ≤ (workerConfig lit h hf.keepsUp mixahead unspecified).destinationFrames)
    (hrun : run Playback.step (Playback.initial (wasapiConfig lit hf h mixahead unspecified)) as = some s) :
    let played := Remix.mixedStream lit cfg.inputChannels cfg.outputChannels (cfg.stream lit (SpeexResampler.filtered f))
    let given := s.device.packets.flatten ++ s.device.pending
    s.device.obtained = played.take s.device.obtained.length ∧ given.Sublist s.device.obtained ∧
      (given = s.device.obtained ↔ ∀ res, .device (WasapiMixing.Action.getBuffer res) ∈ as → res = 0) := by
  have hreach : Playback.Reachable s := Reaches.of_run (fun _ _ => trivial) hrun
  have hheard : s.device.obtained = (OutputWorkerThread.stream (workerConfig lit h hf.keepsUp mixahead unspecified)).take
      s.device.obtained.length := hreach.heard WasapiMixing.player_sound (Nat.mul_pos cfg.outputChannels_pos hframes)
  rw [workerConfig_stream h hf.keepsUp (fun _ => hf.streams) hframes] at hheard
  exact ⟨hheard,given cfg.outputChannels_pos hrun⟩

def open32kHz : List (WasapiMixing.Action ℚ) :=
  [.main,.client ⟨0,false⟩ (0,0),.client ⟨0,false⟩ (2,32000),.client ⟨0,false⟩ (0,0),.client ⟨0,false⟩ (0,0),
    .client ⟨0,false⟩ (0,0),.client ⟨0,false⟩ (0,0)]

def firstRequest : List (WasapiMixing.Action ℚ) :=
  [.mixing,.mixing,.coInitialize 0,.getService ⟨0,false⟩ 1,.mixing,.mixing,.getCurrentPadding 0]

/-- `OutputWorkerThread.countingUp` played through WASAPI. -/
@[reducible] noncomputable def countingConfig : Playback.Config ℚ :=
  wasapiConfig id OutputWorkerThread.countingUp_filters OutputWorkerThread.countingUp_noOverflow 1 fun _ _ => 0

def playFrame : List (Playback.Action countingConfig) :=
  List.flatten [open32kHz.map .device,List.replicate 5 (.worker .owner),
    [.device WasapiMixing.Action.main,.device WasapiMixing.Action.main],List.replicate 7 (.worker .worker),
    firstRequest.map .device,[.call],List.replicate 6 (.worker .io)]

theorem wasapi_plays_frame : ∃ s : Playback.State countingConfig, s.answered = 1 ∧
    s.device.obtained = (Remix.mixedStream id 1 2 (OutputWorkerThread.countingUp.stream id
      (SpeexResampler.filtered (SpeexResampler.nearest 1 2 Nat.one_pos Nat.two_pos)))).take s.device.obtained.length ∧
    s.device.packets.flatten ++ s.device.pending = s.device.obtained := by
  have hrun : (run Playback.step (Playback.initial countingConfig) playFrame).isSome := rfl
  obtain ⟨u,hu⟩ := Option.isSome_iff_exists.mp hrun
  have hfacts : (run Playback.step (Playback.initial countingConfig) playFrame).map
        (fun u => (u.device.control.mixing,u.device.body,u.worker.returns.length,u.answered)) =
          some (.mixing,.obtaining 1,1,0) ∧
      (run Playback.step (Playback.initial countingConfig) playFrame).map (fun u => u.worker.io) = some .idle := ⟨rfl,rfl⟩
  simp only [hu,Option.map_some,Option.some.injEq,Prod.mk.injEq] at hfacts
  obtain ⟨⟨hpc,hbody,hreturns,hanswered⟩,hidle⟩ := hfacts
  have hreach : Playback.Reachable u := Reaches.of_run (fun _ _ => trivial) hu
  have hasks : WasapiMixing.State.asks u.device = some (1,u.device.intermediateStorage) :=
    WasapiMixing.State.asks_eq_some.mpr ⟨hpc,hbody,rfl⟩
  cases hreach.hands_over WasapiMixing.player_sound hasks with
  | calls _ _ hnone => omega
  | waits hbusy => exact absurd hidle hbusy
  | answers _ _ hanswer =>
    obtain ⟨t,ht⟩ := Option.isSome_iff_exists.mp hanswer
    have hplay : run Playback.step (Playback.initial countingConfig) (playFrame ++ [.answer]) = some t := by
      rw [run_append hu,run,ht]
      rfl
    have hplays := wasapi_plays id OutputWorkerThread.countingUp_filters OutputWorkerThread.countingUp_noOverflow (by decide)
      hplay
    refine ⟨t,?_,hplays.1,hplays.2.2.mpr fun res hmem => ?_⟩
    · cases Playback.Move.of_step ht
      rw [hanswered]
    · simp [playFrame,open32kHz,firstRequest] at hmem

end WasapiPlayback
end AudioOutput
