import AudioOutput.AlsaOutputDevice
import AudioOutput.WasapiOutputDevice

/-!
# The library and its application

The public calls of audio_io in any order that its header allows, one after the
other, together with the threads of the devices created. Each step logs what the
source logs there, through the pointer as it is then; a run goes on after a call
through a pointer that is null or deleted.
-/

namespace AudioOutput

open Logging

universe u

namespace AlsaOutputDevice

variable {α : Type u}

/-- What a step logs; `awaitInitialMix` has logged before it waits. -/
def messages (s : State α) : Action α → List Message
  | .configure res _ =>
    if res < 0 then [] else match s.main with
      | .configuring .setPeriodSizeNear => [⟨.debug,"Alsa period size: %i"⟩]
      | .configuring .setBufferSizeFirst => [⟨.debug,"Alsa buffer size: %i"⟩]
      | _ => []
  | .main | .initThrows true _ => if s.main = .starting then [initMessage] else []
  | .io => if s.io = .awaiting then [finishedMessage] else []
  | .recover res =>
    if res < 0 then [⟨.debug,"ALSA: audio I/O thread encountered unrecoverable error %i: %s"⟩] else []
  | _ => []

end AlsaOutputDevice

namespace AudioIo

inductive Backend
  | wasapi | alsa
  deriving DecidableEq

/-- `AUDIO_IO_USE_WASAPI` and `AUDIO_IO_USE_ALSA`. -/
structure Build where
  useWasapi : Bool
  useAlsa : Bool

def outputDeviceFactoryCreators (build : Build) : List Backend :=
  (if build.useWasapi then [.wasapi] else []) ++ if build.useAlsa then [.alsa] else []

/-- Whether the function of the array returns a factory; `createAlsaOutputDeviceFactory`
always does. -/
def Backend.create (answers : WasapiOutputDeviceFactory.Answers) : Backend → Body Bool
  | .wasapi => WasapiOutputDeviceFactory.createWasapiOutputDeviceFactory answers
  | .alsa => return true

/-- The loop of `getOutputDeviceFactory`. -/
def tryCreators (answers : WasapiOutputDeviceFactory.Answers) : List Backend → Body (Option Backend)
  | [] => return none
  | backend :: rest => do
    logInfo "Attempting to use device factory %s."
    if ← backend.create answers then
      return some backend
    tryCreators answers rest

def getOutputDeviceFactory (build : Build) (answers : WasapiOutputDeviceFactory.Answers) : Body Backend := do
  match ← tryCreators answers (outputDeviceFactoryCreators build) with
  | some backend => return backend
  | none =>
    logCritical "Failed to create a device factory.  Audio output is unavailable on this system."
    throw "No audio_io backend is available on the current system."

/-- Nothing is ever added to `createdDevices`. -/
structure Factory where
  backend : Backend
  createdDevices : List ℕ := []
  alive : Bool := true

variable {α : Type u} [Zero α]

/-- For ALSA, also whether its thread has begun `awaitInitialMix`. -/
inductive Device (α : Type u)
  | alsa (d : AlsaOutputDevice.State α) (waiting : Bool)
  | wasapi (d : WasapiOutputDevice.State)

/-- Steps of a device that its own calls, its thread and its backend take. -/
inductive DeviceAction (α : Type u)
  | alsaAwaits
  | alsa (a : AlsaOutputDevice.Action α)
  | wasapi (a : WasapiOutputDevice.Action)

namespace Device

def idle : Device α → Bool
  | .alsa d _ => match d.main with
    | .constructed | .threw _ | .destroyed => true
    | _ => false
  | .wasapi d => match d.main with
    | .constructed | .threw _ | .destroyed => true
    | _ => false

def gone : Device α → Bool
  | .alsa d _ => match d.main with
    | .threw _ | .destroyed => true
    | _ => false
  | .wasapi d => d.main.gone

def beginStop (destroying : Bool) : Device α → Option (Device α)
  | .alsa d waiting => (AlsaOutputDevice.beginStop d destroying).map fun d' => .alsa d' waiting
  | .wasapi d => (WasapiOutputDevice.beginStop d destroying).map .wasapi

def step : Device α → DeviceAction α → Option (Device α × List Message)
  | .alsa d false, .alsaAwaits => if d.io = .awaiting then some (.alsa d true,[waitingMessage]) else none
  | .alsa _ _, .alsa .stop | .alsa _ _, .alsa .destroy => none
  | .alsa d waiting, .alsa a =>
    if d.io = .awaiting ∧ waiting = false ∧ (a matches .io) then none
    else (AlsaOutputDevice.step d a).map fun d' => (.alsa d' waiting,AlsaOutputDevice.messages d a)
  | .wasapi d, .wasapi a => (WasapiOutputDevice.step d a).map fun (d',ms) => (.wasapi d',ms)
  | _, _ => none

end Device

/-- Where the application is between its first call and its last. -/
inductive Phase
  | fresh | running | finished
  deriving DecidableEq

/-- The globals, the objects created, the devices that a factory's destructor still
has to stop, and the log calls made. -/
structure State (α : Type u) where
  phase : Phase := .fresh
  globals : Globals := {}
  factories : List Factory := []
  devices : List (Device α) := []
  stopping : List ℕ := []
  logged : List LogCall := []

inductive Action (α : Type u)
  | initializeLibrary
  | shutdownLibrary
  | getLogger
  | getOutputDeviceFactory (answers : WasapiOutputDeviceFactory.Answers)
  | createDevice (factory : ℕ) (cfg : AlsaOutputDevice.Config) (endpoint : ComAnswer)
  | stop (device : ℕ)
  | destroyDevice (device : ℕ)
  | destroyFactory (factory : ℕ)
  | stopNext
  | device (device : ℕ) (a : DeviceAction α)

namespace State

def report (s : State α) (ms : List Message) : State α :=
  { s with logged := s.logged ++ ms.map fun m => ⟨m,s.globals.logger⟩ }

def idle (s : State α) : Bool := s.phase = .running && s.stopping.isEmpty && s.devices.all Device.idle

def beginStop (s : State α) (i : ℕ) (destroying : Bool) : Option (State α) :=
  (s.devices[i]?).bind fun d => (d.beginStop destroying).map fun d' => { s with devices := s.devices.set i d' }

def addDevice (s : State α) (d : Device α) : State α := { s with devices := s.devices ++ [d] }

def createDevice (s : State α) (backend : Backend) (cfg : AlsaOutputDevice.Config) (endpoint : ComAnswer) : State α :=
  match backend with
  | .alsa => s.addDevice (.alsa (AlsaOutputDevice.initial α cfg) false)
  | .wasapi =>
    let body := WasapiOutputDeviceFactory.createDevice endpoint
    match body.result with
    | .ok _ => (s.report body.reports).addDevice (.wasapi {})
    | .error _ => s.report body.reports

/-- `~OutputDeviceFactoryImplementation`, up to its loop. -/
def destroyFactory (s : State α) (i : ℕ) (f : Factory) : State α :=
  { s.report [dyingMessage] with
    factories := s.factories.set i { f with alive := false }
    stopping := f.createdDevices }

/-- One turn of that loop: `auto strong = p.lock(); if(strong) strong->stop();` -/
def stopNext (s : State α) : Option (State α) :=
  match s.stopping with
  | [] => none
  | i :: rest =>
    if s.devices.all Device.idle then (s.devices[i]?).bind fun d =>
      if d.gone then some { s with stopping := rest } else { s with stopping := rest }.beginStop i false
    else none

end State

open State

def step (build : Build) (s : State α) : Action α → Option (State α)
  | .initializeLibrary => if s.phase = .fresh then some { s with phase := .running } else none
  -- every object has to be deleted before
  | .shutdownLibrary =>
    if s.idle ∧ s.factories.all (!·.alive) ∧ s.devices.all Device.gone then
      some { s with phase := .finished, globals := shutdownLogger s.globals }
    else none
  | .getLogger => if s.idle then some { s with globals := getLoggerImpl s.globals } else none
  | .getOutputDeviceFactory answers =>
    if s.idle then
      let body := AudioIo.getOutputDeviceFactory build answers
      match body.result with
      | .ok backend => some { s.report body.reports with factories := s.factories ++ [{ backend := backend }] }
      | .error _ => some (s.report body.reports)
    else none
  | .createDevice i cfg endpoint =>
    (s.factories[i]?).bind fun f =>
      if s.idle ∧ f.alive then some (s.createDevice f.backend cfg endpoint) else none
  | .stop i => if s.idle then s.beginStop i false else none
  | .destroyDevice i => if s.idle then s.beginStop i true else none
  | .destroyFactory i =>
    (s.factories[i]?).bind fun f => if s.idle ∧ f.alive then some (s.destroyFactory i f) else none
  | .stopNext => s.stopNext
  | .device i a =>
    (s.devices[i]?).bind fun d => (d.step a).map fun (d',ms) => { s.report ms with devices := s.devices.set i d' }

def initial (α : Type u) : State α := {}

inductive Move (build : Build) (s : State α) : Action α → State α → Prop
  | start (hfresh : s.phase = .fresh) : Move build s .initializeLibrary { s with phase := .running }
  | finish (hidle : s.idle = true) (hfactories : ∀ f ∈ s.factories, f.alive = false)
      (hdevices : ∀ d ∈ s.devices, d.gone = true) :
      Move build s .shutdownLibrary { s with phase := .finished, globals := shutdownLogger s.globals }
  | access (hidle : s.idle = true) : Move build s .getLogger { s with globals := getLoggerImpl s.globals }
  | opens {answers : WasapiOutputDeviceFactory.Answers} {backend : Backend} (hidle : s.idle = true)
      (hresult : (AudioIo.getOutputDeviceFactory build answers).result = .ok backend) :
      Move build s (.getOutputDeviceFactory answers)
        { s.report (AudioIo.getOutputDeviceFactory build answers).reports with
          factories := s.factories ++ [{ backend := backend }] }
  | openFails {answers : WasapiOutputDeviceFactory.Answers} {e : String} (hidle : s.idle = true)
      (hresult : (AudioIo.getOutputDeviceFactory build answers).result = .error e) :
      Move build s (.getOutputDeviceFactory answers) (s.report (AudioIo.getOutputDeviceFactory build answers).reports)
  | create {i : ℕ} {f : Factory} {cfg : AlsaOutputDevice.Config} {endpoint : ComAnswer} (hf : s.factories[i]? = some f)
      (hidle : s.idle = true) (halive : f.alive = true) :
      Move build s (.createDevice i cfg endpoint) (s.createDevice f.backend cfg endpoint)
  | stop {i : ℕ} {d d' : Device α} (hd : s.devices[i]? = some d) (hidle : s.idle = true)
      (hstop : d.beginStop false = some d') : Move build s (.stop i) { s with devices := s.devices.set i d' }
  | destroyDevice {i : ℕ} {d d' : Device α} (hd : s.devices[i]? = some d) (hidle : s.idle = true)
      (hstop : d.beginStop true = some d') : Move build s (.destroyDevice i) { s with devices := s.devices.set i d' }
  | destroyFactory {i : ℕ} {f : Factory} (hf : s.factories[i]? = some f) (hidle : s.idle = true)
      (halive : f.alive = true) : Move build s (.destroyFactory i) (s.destroyFactory i f)
  | skipNext {i : ℕ} {rest : List ℕ} {d : Device α} (hstopping : s.stopping = i :: rest)
      (hidle : s.devices.all Device.idle = true) (hd : s.devices[i]? = some d) (hgone : d.gone = true) : Move build s .stopNext { s with stopping := rest }
  | stopNext {i : ℕ} {rest : List ℕ} {d d' : Device α} (hstopping : s.stopping = i :: rest)
      (hidle : s.devices.all Device.idle = true) (hd : s.devices[i]? = some d) (hstop : d.beginStop false = some d') :
      Move build s .stopNext { s with stopping := rest, devices := s.devices.set i d' }
  | device {i : ℕ} {d d' : Device α} {a : DeviceAction α} {ms : List Message} (hd : s.devices[i]? = some d)
      (hstep : d.step a = some (d',ms)) :
      Move build s (.device i a) { s.report ms with devices := s.devices.set i d' }

omit [Zero α] in
theorem State.beginStop_eq_some {s t : State α} {i : ℕ} {destroying : Bool} (h : s.beginStop i destroying = some t) :
    ∃ d d', s.devices[i]? = some d ∧ d.beginStop destroying = some d' ∧ t = { s with devices := s.devices.set i d' } := by
  obtain ⟨d,hd,h⟩ := Option.bind_eq_some_iff.mp h
  obtain ⟨d',hd',rfl⟩ := Option.map_eq_some_iff.mp h
  exact ⟨d,d',hd,hd',rfl⟩

omit [Zero α] in
theorem State.stopNext_eq_some {s t : State α} (h : s.stopNext = some t) :
    ∃ i rest d, s.stopping = i :: rest ∧ s.devices.all Device.idle = true ∧ s.devices[i]? = some d ∧
      (d.gone = true ∧ t = { s with stopping := rest } ∨
        ∃ d', d.beginStop false = some d' ∧ t = { s with stopping := rest, devices := s.devices.set i d' }) := by
  unfold State.stopNext at h
  split at h
  case h_1 => cases h
  case h_2 i rest hstopping =>
    by_cases hidle : s.devices.all Device.idle = true
    · rw [if_pos hidle] at h
      obtain ⟨d,hd,h⟩ := Option.bind_eq_some_iff.mp h
      refine ⟨i,rest,d,hstopping,hidle,hd,?_⟩
      by_cases hgone : d.gone = true
      · rw [if_pos hgone,Option.some.injEq] at h
        exact Or.inl ⟨hgone,h.symm⟩
      · rw [if_neg hgone] at h
        obtain ⟨e,d',he,hd',rfl⟩ := State.beginStop_eq_some h
        obtain rfl : d = e := Option.some.inj (hd.symm.trans he)
        exact Or.inr ⟨d',hd',rfl⟩
    · rw [if_neg hidle] at h
      cases h

theorem Move.of_step {build : Build} {s t : State α} {a : Action α} (h : step build s a = some t) : Move build s a t := by
  cases a with
  | initializeLibrary =>
    obtain ⟨hfresh,⟨⟩⟩ := Option.ite_none_right_eq_some.mp h
    exact .start hfresh
  | shutdownLibrary =>
    obtain ⟨⟨hidle,hfactories,hdevices⟩,⟨⟩⟩ := Option.ite_none_right_eq_some.mp h
    exact .finish hidle (by simpa using hfactories) (List.all_eq_true.mp hdevices)
  | getLogger =>
    obtain ⟨hidle,⟨⟩⟩ := Option.ite_none_right_eq_some.mp h
    exact .access hidle
  | getOutputDeviceFactory answers =>
    obtain ⟨hidle,h⟩ := Option.ite_none_right_eq_some.mp h
    split at h
    case h_1 backend hresult =>
      cases h
      exact .opens hidle hresult
    case h_2 e hresult =>
      cases h
      exact .openFails hidle hresult
  | createDevice i cfg endpoint =>
    obtain ⟨f,hf,h⟩ := Option.bind_eq_some_iff.mp h
    obtain ⟨⟨hidle,halive⟩,⟨⟩⟩ := Option.ite_none_right_eq_some.mp h
    exact .create hf hidle halive
  | stop i =>
    obtain ⟨hidle,h⟩ := Option.ite_none_right_eq_some.mp h
    obtain ⟨d,d',hd,hd',rfl⟩ := State.beginStop_eq_some h
    exact .stop hd hidle hd'
  | destroyDevice i =>
    obtain ⟨hidle,h⟩ := Option.ite_none_right_eq_some.mp h
    obtain ⟨d,d',hd,hd',rfl⟩ := State.beginStop_eq_some h
    exact .destroyDevice hd hidle hd'
  | destroyFactory i =>
    obtain ⟨f,hf,h⟩ := Option.bind_eq_some_iff.mp h
    obtain ⟨⟨hidle,halive⟩,⟨⟩⟩ := Option.ite_none_right_eq_some.mp h
    exact .destroyFactory hf hidle halive
  | stopNext =>
    obtain ⟨i,rest,d,hstopping,hidle,hd,⟨hgone,rfl⟩ | ⟨d',hd',rfl⟩⟩ := State.stopNext_eq_some h
    · exact .skipNext hstopping hidle hd hgone
    · exact .stopNext hstopping hidle hd hd'
  | device i a =>
    obtain ⟨d,hd,h⟩ := Option.bind_eq_some_iff.mp h
    obtain ⟨⟨d',ms⟩,hstep,rfl⟩ := Option.map_eq_some_iff.mp h
    exact .device hd hstep

end AudioIo
end AudioOutput
