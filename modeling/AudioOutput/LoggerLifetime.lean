import AudioOutput.AlsaHandle
import AudioOutput.AudioIo

/-!
# The logger is there when the library logs

The pointer is set by the first `getLogger` and by nothing else, although the library
logs as soon as it is asked for a factory. From then on it is live until `shutdown`,
and after that no thread and no object is left to log.
-/

namespace AudioOutput

open Logging Transition

universe u
variable {α : Type u}

namespace AlsaOutputDevice

/-- No thread is left to take a step, and so to log. -/
theorem HandleInv.stuck [Zero α] {s : State α} (hs : HandleInv s) (hgone : Finished s) (a : Action α) :
    AlsaOutputDevice.step s a = none := by
  have hio : s.io = .unstarted ∨ s.io = .returned := by
    rcases hgone with ⟨message,hpc⟩ | hpc
    · exact Or.inl (hs.threadless (by simp [hpc]))
    · exact Or.inr (hs.stopDone (by simp [hpc]))
  refine Option.eq_none_iff_forall_ne_some.mpr fun t ht => ?_
  cases Move.of_step ht with
  | openFails hpc | opens hpc | configureFails hpc | configures hpc | grow hpc | sized hpc | initThrows hpc | start hpc | stop hpc
  | destroy hpc | clear hpc | skip hpc | join hpc | leave hpc =>
    simp [Finished,hpc] at hgone
  | prepare hpc | test hpc | drain hpc | close hpc | cleanup hpc | updateFails hpc | updates hpc | recoverFails hpc
  | recovers hpc | obtains hpc | submitFails hpc | submits hpc | waitFails hpc | waits hpc =>
    simp [hpc] at hio

end AlsaOutputDevice

namespace AudioIo

namespace Device

/-- The thread of the device is gone when the device is. -/
def Sound : Device α → Prop
  | .alsa d _ => AlsaOutputDevice.HandleInv d
  | .wasapi d => WasapiOutputDevice.ThreadInv d

variable {d d' : Device α}

theorem Sound.beginStop [Zero α] {destroying : Bool} (hd : d.Sound) (h : d.beginStop destroying = some d') : d'.Sound := by
  cases d with
  | alsa d waiting =>
    obtain ⟨e,he,rfl⟩ := Option.map_eq_some_iff.mp h
    cases destroying with
    | false => exact AlsaOutputDevice.HandleInv.step hd (.of_step (a := .stop) he)
    | true => exact AlsaOutputDevice.HandleInv.step hd (.of_step (a := .destroy) he)
  | wasapi d =>
    obtain ⟨e,he,rfl⟩ := Option.map_eq_some_iff.mp h
    exact WasapiOutputDevice.ThreadInv.beginStop hd he

/-- A step of a device is one of its own two threads, or the beginning of the wait in
`awaitInitialMix`. -/
theorem step_cases [Zero α] {a : DeviceAction α} {ms : List Message} (h : d.step a = some (d',ms)) :
    (∃ e, d = .alsa e false ∧ e.io = .awaiting ∧ d' = .alsa e true) ∨
    (∃ e waiting b e', d = .alsa e waiting ∧ AlsaOutputDevice.step e b = some e' ∧ d' = .alsa e' waiting) ∨
    ∃ e b e', d = .wasapi e ∧ WasapiOutputDevice.step e b = some (e',ms) ∧ d' = .wasapi e' := by
  unfold Device.step at h
  split at h
  case h_1 e =>
    obtain ⟨hio,⟨⟩⟩ := Option.ite_none_right_eq_some.mp h
    exact Or.inl ⟨e,rfl,hio,rfl⟩
  case h_2 | h_3 => cases h
  case h_4 e waiting b _ _ =>
    obtain ⟨-,h⟩ := Option.ite_none_left_eq_some.mp h
    obtain ⟨e',he,⟨⟩⟩ := Option.map_eq_some_iff.mp h
    exact Or.inr (Or.inl ⟨e,waiting,b,e',rfl,he,rfl⟩)
  case h_5 e b =>
    obtain ⟨⟨e',ms'⟩,he,⟨⟩⟩ := Option.map_eq_some_iff.mp h
    exact Or.inr (Or.inr ⟨e,b,e',rfl,he,rfl⟩)
  case h_6 => cases h

theorem Sound.step [Zero α] {a : DeviceAction α} {ms : List Message} (hd : d.Sound) (h : d.step a = some (d',ms)) : d'.Sound := by
  rcases step_cases h with ⟨e,rfl,-,rfl⟩ | ⟨e,waiting,b,e',rfl,he,rfl⟩ | ⟨e,b,e',rfl,he,rfl⟩
  · exact hd
  · exact AlsaOutputDevice.HandleInv.step hd (.of_step he)
  · exact WasapiOutputDevice.ThreadInv.step hd he

theorem gone_alsa {e : AlsaOutputDevice.State α} {waiting : Bool} (h : (Device.alsa e waiting).gone = true) :
    AlsaOutputDevice.Finished e := by
  cases hpc : e.main with
  | threw message => exact Or.inl ⟨message,hpc⟩
  | destroyed => exact Or.inr hpc
  | _ => simp [gone,hpc] at h

theorem Sound.stuck [Zero α] (hd : d.Sound) (hgone : d.gone = true) (a : DeviceAction α) : d.step a = none := by
  refine Option.eq_none_iff_forall_ne_some.mpr fun ⟨d',ms⟩ h => ?_
  rcases step_cases h with ⟨e,rfl,hio,-⟩ | ⟨e,waiting,b,e',rfl,he,-⟩ | ⟨e,b,e',rfl,he,-⟩
  · rcases gone_alsa hgone with ⟨message,hpc⟩ | hpc
    · have hnone := AlsaOutputDevice.HandleInv.threadless hd (by simp [hpc])
      simp [hio] at hnone
    · have hreturned := AlsaOutputDevice.HandleInv.stopDone hd (by simp [hpc])
      simp [hio] at hreturned
  · simp [AlsaOutputDevice.HandleInv.stuck hd (gone_alsa hgone) b] at he
  · simp [WasapiOutputDevice.ThreadInv.stuck hd hgone b] at he

theorem not_gone_of_beginStop {destroying : Bool} (h : d.beginStop destroying = some d') : d.gone = false := by
  cases d with
  | alsa e waiting =>
    obtain ⟨e',he,-⟩ := Option.map_eq_some_iff.mp h
    have hpc := (AlsaOutputDevice.beginStop_eq_some he).1
    simp [gone,hpc]
  | wasapi e =>
    obtain ⟨e',he,-⟩ := Option.map_eq_some_iff.mp h
    unfold WasapiOutputDevice.beginStop at he
    split at he
    case h_1 hpc => simp [gone,hpc]
    case h_2 => cases he

end Device

def AllLive (s : State α) : Prop := ∀ c ∈ s.logged, c.logger = .live

def OpensFactory (a : Action α) : Prop := ∃ answers, a = .getOutputDeviceFactory answers

structure Inv (s : State α) : Prop where
  pointer : s.phase ≠ .finished → s.globals.logger = if s.globals.initLoggerFlag then .live else .null
  objects : AllLive s → s.factories ≠ [] ∨ s.devices ≠ [] → s.globals.initLoggerFlag = true
  sound : ∀ d ∈ s.devices, d.Sound
  finished : s.phase = .finished → ∀ d ∈ s.devices, d.gone = true

theorem initial_inv : Inv (initial α) := by
  constructor <;> simp [initial]

theorem allLive_report (s : State α) (ms : List Message) :
    AllLive (s.report ms) ↔ AllLive s ∧ (ms ≠ [] → s.globals.logger = .live) := by
  have hnew : (∀ c ∈ ms.map fun m => (⟨m,s.globals.logger⟩ : LogCall), c.logger = .live) ↔
      (ms ≠ [] → s.globals.logger = .live) := by
    cases ms with
    | nil => simp
    | cons m ms => simp +contextual
  simp only [AllLive,State.report,List.forall_mem_append,hnew]

/-- `getOutputDeviceFactory` logs whatever the backends answer, and even without a backend. -/
theorem getOutputDeviceFactory_reports (build : Build) (answers : WasapiOutputDeviceFactory.Answers) :
    (AudioIo.getOutputDeviceFactory build answers).reports ≠ [] := by
  unfold AudioIo.getOutputDeviceFactory
  cases outputDeviceFactoryCreators build with
  | nil => exact List.cons_ne_nil _ _
  | cons backend rest =>
    apply Reporting.bind_reports_ne_nil
    apply Reporting.bind_reports_ne_nil
    exact List.cons_ne_nil _ _

variable {s t : State α} {build : Build} {a : Action α}

theorem idle_running (h : s.idle = true) : s.phase = .running := by
  simp only [State.idle,Bool.and_eq_true,decide_eq_true_eq] at h
  exact h.1.1

theorem idle_not_finished (h : s.idle = true) : s.phase ≠ .finished := by
  rw [idle_running h]
  simp

theorem Inv.live_iff (hs : Inv s) (hphase : s.phase ≠ .finished) :
    s.globals.logger = .live ↔ s.globals.initLoggerFlag = true := by
  rw [hs.pointer hphase]
  cases s.globals.initLoggerFlag <;> simp

/-- Where there is an object already, what is logged now finds what the calls before found. -/
theorem Inv.report_iff (hs : Inv s) (hphase : s.phase ≠ .finished) (hobjects : s.factories ≠ [] ∨ s.devices ≠ [])
    (ms : List Message) : AllLive (s.report ms) ↔ AllLive s := by
  rw [allLive_report]
  exact ⟨And.left,fun h => ⟨h,fun _ => (hs.live_iff hphase).mpr (hs.objects h hobjects)⟩⟩

theorem Inv.opens_iff (hs : Inv s) (hphase : s.phase ≠ .finished) (build : Build)
    (answers : WasapiOutputDeviceFactory.Answers) :
    AllLive (s.report (AudioIo.getOutputDeviceFactory build answers).reports) ↔
      AllLive s ∧ s.globals.initLoggerFlag = true := by
  rw [allLive_report,hs.live_iff hphase]
  simp [getOutputDeviceFactory_reports]

theorem Inv.setDevice {i : ℕ} {d d' : Device α} (hs : Inv s) (hd : s.devices[i]? = some d) (hgone : d.gone = false)
    (hsound : d'.Sound) (hphase : t.phase = s.phase) (hglobals : t.globals = s.globals)
    (hdevices : t.devices = s.devices.set i d') (hlive : AllLive t → AllLive s) : Inv t where
  pointer h := by rw [hglobals]; exact hs.pointer (hphase ▸ h)
  objects h _ := by
    rw [hglobals]
    exact hs.objects (hlive h) (Or.inr (List.ne_nil_of_mem (List.mem_of_getElem? hd)))
  sound e he := by
    rw [hdevices] at he
    rcases List.mem_or_eq_of_mem_set he with hold | rfl
    · exact hs.sound e hold
    · exact hsound
  finished h := by
    have hall := hs.finished (hphase ▸ h) d (List.mem_of_getElem? hd)
    rw [hgone] at hall
    cases hall

theorem Inv.beginStop [Zero α] {i : ℕ} {d d' : Device α} {destroying : Bool} (hs : Inv s) (hd : s.devices[i]? = some d)
    (h : d.beginStop destroying = some d') (hphase : t.phase = s.phase) (hglobals : t.globals = s.globals)
    (hdevices : t.devices = s.devices.set i d') (hlive : AllLive t → AllLive s) : Inv t :=
  hs.setDevice hd (Device.not_gone_of_beginStop h) ((hs.sound d (List.mem_of_getElem? hd)).beginStop h)
    hphase hglobals hdevices hlive

/-- The call logs, and there is a device more unless COM fails. -/
theorem createDevice_eq (s : State α) (backend : Backend) (cfg : AlsaOutputDevice.Config) (endpoint : ComAnswer) :
    ∃ ms ds, s.createDevice backend cfg endpoint = { s.report ms with devices := s.devices ++ ds } ∧
      ∀ d ∈ ds, Device.Sound d := by
  cases backend with
  | alsa =>
    refine ⟨[],[.alsa (AlsaOutputDevice.initial α cfg) false],?_,?_⟩
    · simp [State.createDevice,State.addDevice,State.report]
    · rintro d hd
      rw [List.mem_singleton.mp hd]
      exact AlsaOutputDevice.initial_handleInv cfg
  | wasapi =>
    cases hresult : (WasapiOutputDeviceFactory.createDevice endpoint).result with
    | ok =>
      refine ⟨(WasapiOutputDeviceFactory.createDevice endpoint).reports,[.wasapi {}],?_,?_⟩
      · simp only [State.createDevice,hresult,State.addDevice]
        rfl
      · rintro d hd
        rw [List.mem_singleton.mp hd]
        exact WasapiOutputDevice.initial_threadInv
    | error e =>
      refine ⟨(WasapiOutputDeviceFactory.createDevice endpoint).reports,[],?_,by simp⟩
      simp only [State.createDevice,hresult,List.append_nil]
      rfl

/-- A call for a factory needs the logger; no other step does more than the calls before it. -/
theorem Inv.step [Zero α] (hs : Inv s) (hm : Move build s a t) :
    Inv t ∧ (AllLive t ↔ AllLive s ∧ (OpensFactory a → s.globals.initLoggerFlag = true)) := by
  cases hm with
  | start hfresh =>
    refine ⟨⟨fun _ => hs.pointer (by simp [hfresh]),hs.objects,hs.sound,by simp⟩,?_⟩
    simp [OpensFactory,AllLive]
  | finish hidle hfactories hdevices =>
    have hflag : (shutdownLogger s.globals).initLoggerFlag = s.globals.initLoggerFlag := by
      unfold shutdownLogger
      split <;> rfl
    refine ⟨⟨by simp,fun h hobjects => hflag.trans (hs.objects h hobjects),hs.sound,fun _ => hdevices⟩,?_⟩
    simp [OpensFactory,AllLive]
  | access hidle =>
    have hphase := idle_not_finished hidle
    have hflag : (getLoggerImpl s.globals).initLoggerFlag = true := by
      unfold getLoggerImpl
      split
      · assumption
      · rfl
    have hlive : (getLoggerImpl s.globals).logger = .live := by
      unfold getLoggerImpl
      split
      case isTrue h => exact (hs.live_iff hphase).mpr h
      case isFalse => rfl
    refine ⟨⟨fun _ => by rw [hlive,hflag,if_pos rfl],fun _ _ => hflag,hs.sound,hs.finished⟩,?_⟩
    simp [OpensFactory,AllLive]
  | @opens answers backend hidle hresult =>
    have hlive := hs.opens_iff (idle_not_finished hidle) build answers
    refine ⟨⟨hs.pointer,fun h _ => (hlive.mp h).2,hs.sound,hs.finished⟩,?_⟩
    exact hlive.trans (by simp [OpensFactory])
  | @openFails answers e hidle hresult =>
    have hlive := hs.opens_iff (idle_not_finished hidle) build answers
    refine ⟨⟨hs.pointer,fun h _ => (hlive.mp h).2,hs.sound,hs.finished⟩,?_⟩
    exact hlive.trans (by simp [OpensFactory])
  | @create i f cfg endpoint hf hidle halive =>
    have hobjects : s.factories ≠ [] ∨ s.devices ≠ [] := Or.inl (List.ne_nil_of_mem (List.mem_of_getElem? hf))
    obtain ⟨ms,ds,heq,hsound⟩ := createDevice_eq s f.backend cfg endpoint
    have hphase := idle_not_finished hidle
    have hlive := hs.report_iff hphase hobjects ms
    rw [heq]
    refine ⟨⟨hs.pointer,fun h _ => hs.objects (hlive.mp h) hobjects,?_,fun h => absurd h hphase⟩,?_⟩
    · intro d hd
      exact (List.mem_append.mp hd).elim (hs.sound d) (hsound d)
    · exact hlive.trans (by simp [OpensFactory])
  | stop hd hidle hstop =>
    refine ⟨hs.beginStop hd hstop rfl rfl rfl id,?_⟩
    simp [OpensFactory,AllLive]
  | destroyDevice hd hidle hstop =>
    refine ⟨hs.beginStop hd hstop rfl rfl rfl id,?_⟩
    simp [OpensFactory,AllLive]
  | stopNext hstopping hidle hd hstop =>
    refine ⟨hs.beginStop hd hstop rfl rfl rfl id,?_⟩
    simp [OpensFactory,AllLive]
  | skipNext =>
    refine ⟨⟨hs.pointer,hs.objects,hs.sound,hs.finished⟩,?_⟩
    simp [OpensFactory,AllLive]
  | @destroyFactory i f hf hidle halive =>
    have hobjects : s.factories ≠ [] ∨ s.devices ≠ [] := Or.inl (List.ne_nil_of_mem (List.mem_of_getElem? hf))
    have hlive := hs.report_iff (idle_not_finished hidle) hobjects [dyingMessage]
    refine ⟨⟨hs.pointer,fun h _ => hs.objects (hlive.mp h) hobjects,hs.sound,hs.finished⟩,?_⟩
    exact hlive.trans (by simp [OpensFactory])
  | @device i d d' b ms hd hstep =>
    have hmem := List.mem_of_getElem? hd
    have hgone : d.gone = false := by
      by_contra h
      rw [(hs.sound d hmem).stuck (by simpa using h) b] at hstep
      cases hstep
    have hphase : s.phase ≠ .finished := by
      intro h
      rw [hs.finished h d hmem] at hgone
      cases hgone
    have hlive := hs.report_iff hphase (Or.inr (List.ne_nil_of_mem hmem)) ms
    refine ⟨hs.setDevice hd hgone ((hs.sound d hmem).step hstep) rfl rfl rfl hlive.mp,?_⟩
    exact hlive.trans (by simp [OpensFactory])

theorem flag_step [Zero α] (s : State α) (a : Action α) (t : State α) (h : step build s a = some t) :
    t.globals.initLoggerFlag = true ↔ s.globals.initLoggerFlag = true ∨ a = .getLogger := by
  cases Move.of_step h with
  | finish =>
    unfold shutdownLogger
    split <;> simp
  | access =>
    unfold getLoggerImpl
    split <;> simp_all
  | @create i f cfg endpoint =>
    obtain ⟨ms,ds,heq,-⟩ := createDevice_eq s f.backend cfg endpoint
    rw [heq]
    simp [State.report]
  | start | opens | openFails | stop | destroyDevice | destroyFactory | skipNext | stopNext | device =>
    simp [State.report,State.destroyFactory]

def GetsLoggerFirst (as : List (Action α)) : Prop :=
  ∀ (before : List (Action α)) (answers : WasapiOutputDeviceFactory.Answers) (after : List (Action α)),
    as = before ++ .getOutputDeviceFactory answers :: after → .getLogger ∈ before

/-- In a run of the application and the threads of its devices, every log call finds a
live logger exactly if `getLogger` was called before any factory was asked for. -/
theorem log_calls_live_iff [Zero α] {as : List (Action α)} (h : run (step build) (initial α) as = some s) :
    (∀ c ∈ s.logged, c.logger = .live) ↔ GetsLoggerFirst as := by
  have hstep (u : State α) (b : Action α) (v : State α) (hu : Inv u) (hb : step build u b = some v) :
      Inv v ∧ (AllLive v ↔ AllLive u ∧ (OpensFactory b → u.globals.initLoggerFlag = true)) :=
    hu.step (.of_step hb)
  have hinit : AllLive (initial α) := by simp [AllLive,initial]
  calc
    (∀ c ∈ s.logged, c.logger = .live) ↔
        Along (step build) (fun u b => OpensFactory b → u.globals.initLoggerFlag = true) (initial α) as :=
      (run_iff_along hstep h initial_inv).trans (and_iff_right hinit)
    _ ↔ ∀ before b after, as = before ++ b :: after → OpensFactory b →
        (initial α).globals.initLoggerFlag = true ∨ .getLogger ∈ before := along_after flag_step h
    _ ↔ GetsLoggerFirst as := by
      constructor
      · intro hall before answers after heq
        exact (hall before _ after heq ⟨answers,rfl⟩).resolve_left Bool.false_ne_true
      · rintro hall before b after heq ⟨answers,rfl⟩
        exact Or.inr (hall before answers after heq)

theorem getsLoggerFirst_of_second (as : List (Action α)) : GetsLoggerFirst (.initializeLibrary :: .getLogger :: as) := by
  intro before answers after heq
  rcases before with _ | ⟨a,_ | ⟨b,before⟩⟩
  · cases heq
  · cases heq
  · cases heq
    simp

def alsaBuild : Build := ⟨false,true⟩

def comFails : WasapiOutputDeviceFactory.Answers :=
  ⟨⟨⟨-1,true⟩,⟨-1,true⟩,⟨-1,true⟩,-1,-1⟩,⟨-1,true⟩,⟨⟨-1,true⟩,-1,[]⟩⟩

def firstDevice (as : List (AlsaOutputDevice.Action ℕ)) : List (Action ℕ) := as.map fun a => .device 0 (.alsa a)

def oneDevice : List (Action ℕ) :=
  .getOutputDeviceFactory comFails :: .createDevice 0 AlsaOutputDevice.mono ⟨0,false⟩ ::
    (firstDevice AlsaOutputDevice.construct.dropLast ++ .device 0 .alsaAwaits ::
      (firstDevice [.io] ++ .destroyDevice 0 ::
        (firstDevice [.main,.io,.io,.io,.io,.main,.main] ++ [.destroyFactory 0,.shutdownLibrary])))

theorem log_calls_live_oneDevice :
    ∃ s, run (step alsaBuild) (initial ℕ) (.initializeLibrary :: .getLogger :: oneDevice) = some s ∧
      s.logged.length = 7 ∧ ∀ c ∈ s.logged, c.logger = .live := by
  have hrun : (run (step alsaBuild) (initial ℕ) (.initializeLibrary :: .getLogger :: oneDevice)).map
      (·.logged.length) = some 7 := by
    decide +kernel
  obtain ⟨s,hs,hlength⟩ := Option.map_eq_some_iff.mp hrun
  exact ⟨s,hs,hlength,(log_calls_live_iff hs).mpr (getsLoggerFirst_of_second oneDevice)⟩

def noLogger : List (Action ℕ) :=
  [.initializeLibrary,.getOutputDeviceFactory comFails,.destroyFactory 0,.shutdownLibrary]

/-- A factory is asked for, and destroyed again, without `getLogger`. -/
theorem logs_through_null : ¬ ∀ (build : Build) (as : List (Action ℕ)) (s : State ℕ),
    run (step build) (initial ℕ) as = some s → ∀ c ∈ s.logged, c.logger = .live := by
  intro hall
  have hrun : (run (step alsaBuild) (initial ℕ) noLogger).map (·.logged) =
      some [⟨⟨.info,"Attempting to use device factory %s."⟩,.null⟩,⟨dyingMessage,.null⟩] := by
    decide +kernel
  obtain ⟨s,hs,hlogged⟩ := Option.map_eq_some_iff.mp hrun
  have hnull := hall alsaBuild noLogger s hs ⟨dyingMessage,.null⟩ (by simp [hlogged])
  cases hnull

end AudioIo
end AudioOutput
