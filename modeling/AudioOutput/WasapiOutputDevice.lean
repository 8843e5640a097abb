import AudioOutput.WasapiOutputDeviceFactory

/-!
# The WASAPI device

`WasapiOutputDevice` as two threads, the application's and the mixing thread, with
what each step logs. What COM answers is part of the label.
-/

namespace AudioOutput
namespace WasapiOutputDevice

open Logging

/-- The calls in the constructor that can fail, in its order. -/
inductive ClientCall
  | activate | getMixFormat | isFormatSupported | getDevicePeriod | initializeClient | getBufferSize
  deriving DecidableEq

/-- `IAudioClient::Initialize` has to answer `S_OK`. -/
def ClientCall.fails (res : HResult) : ClientCall → Bool
  | .initializeClient => res != 0
  | _ => isError res

/-- Logged when the call fails. -/
def ClientCall.failure : ClientCall → Message
  | .activate => ⟨.debug,"Could not activate device.  Error code %i."⟩
  | .getMixFormat => ⟨.debug,"Wasapi: could not get mix format. Error: %i"⟩
  | .isFormatSupported =>
    ⟨.debug,"Requested mix format is not supported.  Attempt to use IEEE float failed. Error: %i"⟩
  | .getDevicePeriod => ⟨.debug,"Couldn't query device periods.  Error %i"⟩
  | .initializeClient => ⟨.debug,"Call to IAudioClient::initialize failed. COM error %i."⟩
  | .getBufferSize => ⟨.debug,"Attempt to get buffer size failed with error %i"⟩

/-- Text of the `AudioIOError` thrown then. -/
def ClientCall.error : ClientCall → String
  | .activate => "Wasapi: could not activate device."
  | .getMixFormat => "Wasapi: unable to retrieve mix format."
  | .isFormatSupported => "Wasapi: could not initialize with float audio.."
  | .getDevicePeriod => "WASAPI: couldn't query device period."
  | .initializeClient => "Wasapi: call to IAudioClient::initialize failed."
  | .getBufferSize => "Couldn't get Wasapi buffer size."

/-- Logged when the call succeeds. -/
def ClientCall.success (answer : ComAnswer) : ClientCall → List Message
  | .activate => (wrapComPointer answer).reports
  | .getDevicePeriod => [⟨.debug,"WASAPI: shared mode period is %f seconds"⟩]
  | .getBufferSize => [⟨.debug,"Wasapi buffer size: %i"⟩]
  | _ => []

/-- Points of the constructor, of `stop` and of the destructor. `entering` and `reporting` are its first
and last log message, `starting` calls `init` and starts the thread, `stopping` is `stop` up to the
clearing of `should_continue`. -/
inductive MainPc
  | entering
  | calling (call : ClientCall)
  | starting
  | reporting
  | constructed
  | stopping (destroying : Bool)
  | joining (destroying : Bool)
  | threw (message : String)
  | destroyed
  deriving DecidableEq

def ClientCall.next : ClientCall → MainPc
  | .activate => .calling .getMixFormat
  | .getMixFormat => .calling .isFormatSupported
  | .isFormatSupported => .calling .getDevicePeriod
  | .getDevicePeriod => .calling .initializeClient
  | .initializeClient => .calling .getBufferSize
  | .getBufferSize => .starting

/-- Points of `wasapiMixingThreadFunction`. `announcing` and `awaiting` are `awaitInitialMix`, up to its
loop and from there; `connecting` is `GetBufferSize`, `GetService` and `wrapComPointer`; `starting`
and `exiting` stand before and behind the loop, with `client->Start()` and `client->Stop()`. -/
inductive MixingPc
  | unstarted
  | announcing
  | awaiting
  | initializing
  | connecting
  | starting
  | testing
  | mixing
  | exiting
  | returned
  deriving DecidableEq

structure State where
  main : MainPc := .entering
  mixing : MixingPc := .unstarted
  shouldContinue : Bool := false
  stopped : Bool := false

inductive Action
  | main
  | client (answer : ComAnswer)
  | initThrows (initialized : Bool) (message : String)
  | mixing
  | coInitialize (res : HResult)
  | getService (answer : ComAnswer)

/-- Where `stop` and the destructor's call of it end. -/
def afterStop (destroying : Bool) : MainPc := if destroying then .destroyed else .constructed

def mainThread (s : State) : Option (State × List Message) :=
  match s.main with
  | .entering => some ({ s with main := .calling .activate },[⟨.debug,"Attempting to initialize a Wasapi device."⟩])
  | .starting =>
    some ({ s with shouldContinue := true, mixing := .announcing, main := .reporting },[initMessage])
  | .reporting => some ({ s with main := .constructed },[⟨.debug,"Initialized Wasapi device."⟩])
  | .stopping destroying =>
    if s.stopped then some ({ s with main := afterStop destroying },[])
    else some ({ s with shouldContinue := false, main := .joining destroying },
      [⟨.info,"Wasapi device shutting down."⟩,⟨.debug,"Stopping a Wasapi device."⟩])
  | .joining destroying =>
    if s.mixing = .returned then some ({ s with stopped := true, main := afterStop destroying },[]) else none
  | _ => none

def clientCall (s : State) (answer : ComAnswer) : Option (State × List Message) :=
  match s.main with
  | .calling c =>
    if c.fails answer.res then some ({ s with main := .threw c.error },[c.failure])
    else some ({ s with main := c.next },c.success answer)
  | _ => none

/-- `init`, or the start of the thread after it, throws what speex, the allocator or the
system has to say about the parameters. -/
def initThrows (s : State) (initialized : Bool) (message : String) : Option (State × List Message) :=
  match s.main with
  | .starting => some ({ s with main := .threw message },if initialized then [initMessage] else [])
  | _ => none

def beginStop (s : State) (destroying : Bool) : Option State :=
  match s.main with
  | .constructed => some { s with main := .stopping destroying }
  | _ => none

def mixingThread (s : State) : Option (State × List Message) :=
  match s.mixing with
  | .announcing => some ({ s with mixing := .awaiting },[waitingMessage])
  | .awaiting => some ({ s with mixing := .initializing },[finishedMessage])
  | .starting => some ({ s with mixing := .testing },
      [⟨.debug,"Wasapi mixing thread: audio client is started.  Mixing audio."⟩])
  | .testing =>
    some ({ s with shouldContinue := true, mixing := if s.shouldContinue then .mixing else .exiting },[])
  | .mixing => some ({ s with mixing := .testing },[])
  | .exiting => some ({ s with mixing := .returned },[⟨.debug,"Wasapi mixing thread: exiting."⟩])
  | _ => none

def coInitialize (s : State) (res : HResult) : Option (State × List Message) :=
  match s.mixing with
  | .initializing =>
    if isError res then some ({ s with mixing := .returned },
      [⟨.debug,"Wassapi device mixing thread: could not initialize COM. Error %i"⟩])
    else some ({ s with mixing := .connecting },[])
  | _ => none

def getService (s : State) (answer : ComAnswer) : Option (State × List Message) :=
  match s.mixing with
  | .connecting => some ({ s with mixing := .starting },(wrapComPointer answer).reports)
  | _ => none

def step (s : State) : Action → Option (State × List Message)
  | .main => mainThread s
  | .client answer => clientCall s answer
  | .initThrows initialized message => initThrows s initialized message
  | .mixing => mixingThread s
  | .coInitialize res => coInitialize s res
  | .getService answer => getService s answer

/-- Points of the constructor, and its failure: there is no mixing thread. -/
@[simp] def MainPc.threadless : MainPc → Bool
  | .entering | .calling _ | .starting | .threw _ => true
  | _ => false

@[simp] def MainPc.gone : MainPc → Bool
  | .threw _ | .destroyed => true
  | _ => false

structure ThreadInv (s : State) : Prop where
  threadless : s.main.threadless = true → s.mixing = .unstarted
  stopped : s.stopped = true → s.mixing = .returned
  destroyed : s.main = .destroyed → s.mixing = .returned

theorem initial_threadInv : ThreadInv {} := by
  constructor <;> simp

theorem ClientCall.threadless_next (c : ClientCall) : c.next.threadless = true ∧ c.next ≠ .destroyed := by
  cases c <;> simp [ClientCall.next]

variable {s t : State} {ms : List Message}

theorem ThreadInv.mix (hs : ThreadInv s) (hstarted : s.mixing ≠ .unstarted) (hrunning : s.mixing ≠ .returned)
    (hmain : t.main = s.main) (hstopped : t.stopped = s.stopped) : ThreadInv t where
  threadless h := absurd (hs.threadless (hmain ▸ h)) hstarted
  stopped h := absurd (hs.stopped (hstopped ▸ h)) hrunning
  destroyed h := absurd (hs.destroyed (hmain ▸ h)) hrunning

theorem ThreadInv.app (hs : ThreadInv s) (hmixing : t.mixing = s.mixing) (hstopped : t.stopped = s.stopped)
    (hthreadless : t.main.threadless = true → s.main.threadless = true)
    (hdestroyed : t.main = .destroyed → s.stopped = true) : ThreadInv t where
  threadless h := hmixing.trans (hs.threadless (hthreadless h))
  stopped h := hmixing.trans (hs.stopped (hstopped ▸ h))
  destroyed h := hmixing.trans (hs.stopped (hdestroyed h))

theorem ThreadInv.not_stopped (hs : ThreadInv s) (h : s.main.threadless = true) : s.stopped = false := by
  by_contra hstopped
  have hreturned := hs.stopped (by simpa using hstopped)
  rw [hs.threadless h] at hreturned
  cases hreturned

theorem ThreadInv.mainThread (hs : ThreadInv s) (h : mainThread s = some (t,ms)) : ThreadInv t := by
  unfold WasapiOutputDevice.mainThread at h
  split at h
  case h_1 hpc =>
    cases h
    exact hs.app rfl rfl (by simp [hpc]) (by simp)
  case h_2 hpc =>
    cases h
    have hstopped := hs.not_stopped (by simp [hpc])
    exact ⟨by simp,by simp [hstopped],by simp⟩
  case h_3 hpc =>
    cases h
    exact hs.app rfl rfl (by simp) (by simp)
  case h_4 destroying hpc =>
    by_cases hstopped : s.stopped = true
    · rw [if_pos hstopped] at h
      cases h
      exact hs.app rfl rfl (by cases destroying <;> simp [afterStop]) fun _ => hstopped
    · rw [if_neg hstopped] at h
      cases h
      exact hs.app rfl rfl (by simp) (by simp)
  case h_5 destroying hpc =>
    by_cases hreturned : s.mixing = .returned
    · rw [if_pos hreturned] at h
      cases h
      exact ⟨by cases destroying <;> simp [afterStop],fun _ => hreturned,fun _ => hreturned⟩
    · rw [if_neg hreturned] at h
      cases h
  case h_6 => cases h

theorem ThreadInv.clientCall {answer : ComAnswer} (hs : ThreadInv s) (h : clientCall s answer = some (t,ms)) :
    ThreadInv t := by
  unfold WasapiOutputDevice.clientCall at h
  split at h
  case h_1 c hpc =>
    split at h
    · cases h
      exact hs.app rfl rfl (by simp [hpc]) (by simp)
    · cases h
      exact hs.app rfl rfl (by simp [hpc]) fun hdestroyed => absurd hdestroyed c.threadless_next.2
  case h_2 => cases h

theorem ThreadInv.initThrows {initialized : Bool} {message : String} (hs : ThreadInv s)
    (h : initThrows s initialized message = some (t,ms)) : ThreadInv t := by
  unfold WasapiOutputDevice.initThrows at h
  split at h
  case h_1 hpc =>
    cases h
    exact hs.app rfl rfl (by simp [hpc]) (by simp)
  case h_2 => cases h

theorem ThreadInv.beginStop {destroying : Bool} (hs : ThreadInv s) (h : beginStop s destroying = some t) :
    ThreadInv t := by
  unfold WasapiOutputDevice.beginStop at h
  split at h
  case h_1 hpc =>
    cases h
    exact hs.app rfl rfl (by simp) (by simp)
  case h_2 => cases h

theorem ThreadInv.mixingThread (hs : ThreadInv s) (h : mixingThread s = some (t,ms)) : ThreadInv t := by
  unfold WasapiOutputDevice.mixingThread at h
  split at h
  case h_7 => cases h
  all_goals
    cases h
    exact hs.mix (by simp [*]) (by simp [*]) rfl rfl

theorem ThreadInv.coInitialize {res : HResult} (hs : ThreadInv s) (h : coInitialize s res = some (t,ms)) :
    ThreadInv t := by
  unfold WasapiOutputDevice.coInitialize at h
  split at h
  case h_1 hpc =>
    split at h
    all_goals
      cases h
      exact hs.mix (by simp [hpc]) (by simp [hpc]) rfl rfl
  case h_2 => cases h

theorem ThreadInv.getService {answer : ComAnswer} (hs : ThreadInv s) (h : getService s answer = some (t,ms)) :
    ThreadInv t := by
  unfold WasapiOutputDevice.getService at h
  split at h
  case h_1 hpc =>
    cases h
    exact hs.mix (by simp [hpc]) (by simp [hpc]) rfl rfl
  case h_2 => cases h

theorem ThreadInv.step {a : Action} (hs : ThreadInv s) (h : step s a = some (t,ms)) : ThreadInv t := by
  cases a with
  | main => exact hs.mainThread h
  | client answer => exact hs.clientCall h
  | initThrows initialized message => exact hs.initThrows h
  | mixing => exact hs.mixingThread h
  | coInitialize res => exact hs.coInitialize h
  | getService answer => exact hs.getService h

theorem MainPc.of_gone {m : MainPc} (h : m.gone = true) : (∃ message, m = .threw message) ∨ m = .destroyed := by
  cases m <;> simp_all

theorem ThreadInv.stuck (hs : ThreadInv s) (hgone : s.main.gone = true) (a : Action) : WasapiOutputDevice.step s a = none := by
  have hmain := MainPc.of_gone hgone
  have hmixing : s.mixing = .unstarted ∨ s.mixing = .returned := by
    rcases hmain with ⟨message,hpc⟩ | hpc
    · exact Or.inl (hs.threadless (by simp [hpc]))
    · exact Or.inr (hs.destroyed hpc)
  cases a with
  | main => rcases hmain with ⟨_,h⟩ | h <;> simp [WasapiOutputDevice.step,WasapiOutputDevice.mainThread,h]
  | client => rcases hmain with ⟨_,h⟩ | h <;> simp [WasapiOutputDevice.step,WasapiOutputDevice.clientCall,h]
  | initThrows => rcases hmain with ⟨_,h⟩ | h <;> simp [WasapiOutputDevice.step,WasapiOutputDevice.initThrows,h]
  | mixing => rcases hmixing with h | h <;> simp [WasapiOutputDevice.step,WasapiOutputDevice.mixingThread,h]
  | coInitialize => rcases hmixing with h | h <;> simp [WasapiOutputDevice.step,WasapiOutputDevice.coInitialize,h]
  | getService => rcases hmixing with h | h <;> simp [WasapiOutputDevice.step,WasapiOutputDevice.getService,h]

end WasapiOutputDevice
end AudioOutput
