import AudioOutput.WasapiOutputDevice
import AudioOutput.Buffer
import AudioOutput.Transition

/-!
# The mixing thread of WASAPI

`wasapiMixingThreadFunction` with the samples that it takes from the worker and hands to the
endpoint. The body of its loop, one step of `WasapiOutputDevice`, is taken apart into the
calls of COM and of the worker; the endpoint renders what it has at its own pace.
-/

namespace AudioOutput
namespace WasapiMixing

open Transition
open Logging (Message)

universe u

/-- Points of the body of the loop: `GetCurrentPadding`, `write`, `GetBuffer`, and the wait for the
event. -/
inductive BodyPc
  | querying
  | obtaining (toRequest : ℕ)
  | acquiring (toRequest : ℕ)
  | waiting
  deriving DecidableEq

/-- A call of `GetBuffer`: whether it answers `S_OK`, and the samples it is for. -/
structure Offer (α : Type u) where
  ok : Bool
  samples : List α

/-- The members of the class and the locals of the mixing thread, `format` being the
channels and the rate of the mix format; the frames that the endpoint has not rendered
yet; and the history: the samples taken from the worker and the calls of `GetBuffer`
that were made for them. -/
structure State (α : Type u) where
  control : WasapiOutputDevice.State := {}
  format : ℕ × ℕ := (0,0)
  outputChannels : ℕ := 0
  outputSr : ℕ := 0
  bufferSize : ℕ := 0
  renderClient : Bool := false
  intermediateStorage : List α := []
  body : BodyPc := .querying
  queued : ℕ := 0
  obtained : List α := []
  offers : List (Offer α) := []

/-- The mix format comes with the answer of `GetMixFormat`, the size of the endpoint's
buffer from `GetBufferSize`, just before `GetService`. -/
inductive Action (α : Type u)
  | main
  | client (answer : ComAnswer) (format : ℕ × ℕ)
  | initThrows (initialized : Bool) (message : String)
  | stop (destroying : Bool)
  | mixing
  | coInitialize (res : HResult)
  | getService (answer : ComAnswer) (bufferSize : ℕ)
  | getCurrentPadding (res : HResult)
  | write (written : ℕ) (samples : List α)
  | getBuffer (res : HResult)
  | render (frames : ℕ)

variable {α : Type u}

def mainThread (s : State α) : Option (State α) :=
  (WasapiOutputDevice.mainThread s.control).map fun p =>
    if s.control.main = .starting then { s with control := p.1, outputChannels := s.format.1, outputSr := s.format.2 }
    else { s with control := p.1 }

def clientCall (s : State α) (answer : ComAnswer) (format : ℕ × ℕ) : Option (State α) :=
  (WasapiOutputDevice.clientCall s.control answer).map fun p =>
    { s with control := p.1, format := if s.control.main = .calling .getMixFormat then format else s.format }

def initThrows (s : State α) (initialized : Bool) (message : String) : Option (State α) :=
  (WasapiOutputDevice.initThrows s.control initialized message).map fun p => { s with control := p.1 }

def beginStop (s : State α) (destroying : Bool) : Option (State α) :=
  (WasapiOutputDevice.beginStop s.control destroying).map fun c => { s with control := c }

/-- The body of the loop is left where it waits for the event; `client->Reset()` and
`delete[] intermediateStorage` come after the loop. -/
def mixingThread (s : State α) : Option (State α) :=
  if s.control.mixing = .mixing ∧ s.body ≠ .waiting then none
  else (WasapiOutputDevice.mixingThread s.control).map fun p =>
    if s.control.mixing = .exiting then { s with control := p.1, intermediateStorage := [], queued := 0 }
    else { s with control := p.1, body := .querying }

def coInitialize (s : State α) (res : HResult) : Option (State α) :=
  (WasapiOutputDevice.coInitialize s.control res).map fun p => { s with control := p.1 }

/-- `GetBufferSize`, `GetService` and `new float[bufferSize*output_channels]`, filled with zeros. -/
def getService [Zero α] (s : State α) (answer : ComAnswer) (bufferSize : ℕ) : Option (State α) :=
  (WasapiOutputDevice.getService s.control answer).map fun p => { s with
    control := p.1
    bufferSize := bufferSize
    renderClient := !answer.null
    intermediateStorage := List.replicate (bufferSize*s.outputChannels) 0 }

/-- `int toRequest = bufferSize-padding`, where the padding is left at 0 when the call fails. -/
def getCurrentPadding (s : State α) (res : HResult) : Option (State α) :=
  match s.control.mixing, s.body with
  | .mixing, .querying => some { s with body := .obtaining (s.bufferSize-if isError res then 0 else s.queued) }
  | _, _ => none

/-- `OutputWorkerThread::write` hands over at most the frames asked for; without any the
loop goes on with `continue`. -/
def write (s : State α) (written : ℕ) (samples : List α) : Option (State α) :=
  match s.control.mixing, s.body with
  | .mixing, .obtaining toRequest =>
    if written ≤ toRequest ∧ samples.length = written*s.outputChannels then
      if written = 0 then some { s with control := { s.control with mixing := .testing }, body := .querying }
      else some { s with
        intermediateStorage := Buffer.splice s.intermediateStorage 0 samples
        obtained := s.obtained ++ samples
        body := .acquiring written }
    else none
  | _, _ => none

/-- `GetBuffer` answers `S_OK` only when the endpoint has room; then come `memcpy` and
`ReleaseBuffer`. Without a render client the call is no call. -/
def getBuffer (s : State α) (res : HResult) : Option (State α) :=
  match s.control.mixing, s.body with
  | .mixing, .acquiring toRequest =>
    if s.renderClient = true ∧ (res = 0 → s.queued+toRequest ≤ s.bufferSize) then some { s with
      queued := if res = 0 then s.queued+toRequest else s.queued
      offers := s.offers ++ [⟨res == 0,s.intermediateStorage.take (toRequest*s.outputChannels)⟩]
      body := .waiting }
    else none
  | _, _ => none

def render (s : State α) (frames : ℕ) : Option (State α) :=
  if frames ≤ s.queued then some { s with queued := s.queued-frames } else none

def step [Zero α] (s : State α) : Action α → Option (State α)
  | .main => mainThread s
  | .client answer format => clientCall s answer format
  | .initThrows initialized message => initThrows s initialized message
  | .stop destroying => beginStop s destroying
  | .mixing => mixingThread s
  | .coInitialize res => coInitialize s res
  | .getService answer bufferSize => getService s answer bufferSize
  | .getCurrentPadding res => getCurrentPadding s res
  | .write written samples => write s written samples
  | .getBuffer res => getBuffer s res
  | .render frames => render s frames

def Reachable [Zero α] (s : State α) : Prop := Reaches step (fun _ => True) {} s

inductive Move [Zero α] (s : State α) : Action α → State α → Prop
  | main {c : WasapiOutputDevice.State} {ms : List Message} (hpc : s.control.main ≠ .starting)
      (h : WasapiOutputDevice.mainThread s.control = some (c,ms)) : Move s .main { s with control := c }
  | starts (hpc : s.control.main = .starting) : Move s .main { s with
      control := { s.control with shouldContinue := true, mixing := .announcing, main := .reporting }
      outputChannels := s.format.1
      outputSr := s.format.2 }
  | client {answer : ComAnswer} {format : ℕ × ℕ} {c : WasapiOutputDevice.State} {ms : List Message}
      (h : WasapiOutputDevice.clientCall s.control answer = some (c,ms)) : Move s (.client answer format) { s with
        control := c
        format := if s.control.main = .calling .getMixFormat then format else s.format }
  | initThrows {initialized : Bool} {message : String} (hpc : s.control.main = .starting) :
      Move s (.initThrows initialized message) { s with control := { s.control with main := .threw message } }
  | stop {destroying : Bool} {c : WasapiOutputDevice.State}
      (h : WasapiOutputDevice.beginStop s.control destroying = some c) : Move s (.stop destroying) { s with control := c }
  | mixes {c : WasapiOutputDevice.State} {ms : List Message} (hbody : s.control.mixing = .mixing → s.body = .waiting)
      (hpc : s.control.mixing ≠ .exiting) (h : WasapiOutputDevice.mixingThread s.control = some (c,ms)) :
      Move s .mixing { s with control := c, body := .querying }
  | exits (hpc : s.control.mixing = .exiting) : Move s .mixing { s with
      control := { s.control with mixing := .returned }
      intermediateStorage := []
      queued := 0 }
  | coInitialize {res : HResult} {c : WasapiOutputDevice.State} {ms : List Message}
      (h : WasapiOutputDevice.coInitialize s.control res = some (c,ms)) : Move s (.coInitialize res) { s with control := c }
  | connects {answer : ComAnswer} {bufferSize : ℕ} (hpc : s.control.mixing = .connecting) :
      Move s (.getService answer bufferSize) { s with
        control := { s.control with mixing := .starting }
        bufferSize := bufferSize
        renderClient := !answer.null
        intermediateStorage := List.replicate (bufferSize*s.outputChannels) 0 }
  | queries {res : HResult} (hpc : s.control.mixing = .mixing) (hbody : s.body = .querying) :
      Move s (.getCurrentPadding res) { s with body := .obtaining (s.bufferSize-if isError res then 0 else s.queued) }
  | continues {toRequest : ℕ} (hpc : s.control.mixing = .mixing) (hbody : s.body = .obtaining toRequest) :
      Move s (.write 0 []) { s with control := { s.control with mixing := .testing }, body := .querying }
  | obtains {toRequest written : ℕ} {samples : List α} (hpc : s.control.mixing = .mixing)
      (hbody : s.body = .obtaining toRequest) (hpos : 0 < written) (hle : written ≤ toRequest)
      (hlen : samples.length = written*s.outputChannels) : Move s (.write written samples) { s with
        intermediateStorage := Buffer.splice s.intermediateStorage 0 samples
        obtained := s.obtained ++ samples
        body := .acquiring written }
  | offers {toRequest : ℕ} {res : HResult} (hpc : s.control.mixing = .mixing) (hbody : s.body = .acquiring toRequest)
      (hroom : res = 0 → s.queued+toRequest ≤ s.bufferSize) : Move s (.getBuffer res) { s with
        queued := if res = 0 then s.queued+toRequest else s.queued
        offers := s.offers ++ [⟨res == 0,s.intermediateStorage.take (toRequest*s.outputChannels)⟩]
        body := .waiting }
  | renders {frames : ℕ} (hle : frames ≤ s.queued) : Move s (.render frames) { s with queued := s.queued-frames }

variable [Zero α] {s t : State α} {a : Action α}

theorem Move.of_step (h : step s a = some t) : Move s a t := by
  cases a with
  | main =>
    obtain ⟨⟨c,ms⟩,hc,rfl⟩ := Option.map_eq_some_iff.mp h
    by_cases hpc : s.control.main = .starting
    · rw [WasapiOutputDevice.mainThread,hpc] at hc
      cases hc
      simpa only [hpc,if_true] using Move.starts hpc
    · simpa only [if_neg hpc] using Move.main hpc hc
  | client answer format =>
    obtain ⟨⟨c,ms⟩,hc,rfl⟩ := Option.map_eq_some_iff.mp h
    exact .client hc
  | initThrows initialized message =>
    obtain ⟨⟨c,ms⟩,hc,rfl⟩ := Option.map_eq_some_iff.mp h
    unfold WasapiOutputDevice.initThrows at hc
    split at hc
    case h_1 hpc =>
      cases hc
      exact .initThrows hpc
    case h_2 => cases hc
  | stop destroying =>
    obtain ⟨c,hc,rfl⟩ := Option.map_eq_some_iff.mp h
    exact .stop hc
  | mixing =>
    simp only [step,mixingThread] at h
    split at h
    case isTrue => cases h
    case isFalse hbody =>
      obtain ⟨⟨c,ms⟩,hc,rfl⟩ := Option.map_eq_some_iff.mp h
      by_cases hpc : s.control.mixing = .exiting
      · rw [WasapiOutputDevice.mixingThread,hpc] at hc
        cases hc
        simpa only [hpc,if_true] using Move.exits hpc
      · rw [if_neg hpc]
        exact .mixes (fun hmixing => not_not.mp fun hne => hbody ⟨hmixing,hne⟩) hpc hc
  | coInitialize res =>
    obtain ⟨⟨c,ms⟩,hc,rfl⟩ := Option.map_eq_some_iff.mp h
    exact .coInitialize hc
  | getService answer bufferSize =>
    obtain ⟨⟨c,ms⟩,hc,rfl⟩ := Option.map_eq_some_iff.mp h
    unfold WasapiOutputDevice.getService at hc
    split at hc
    case h_1 hpc =>
      cases hc
      exact .connects hpc
    case h_2 => cases hc
  | getCurrentPadding res =>
    simp only [step,getCurrentPadding] at h
    split at h
    case h_1 hpc hbody =>
      cases h
      exact .queries hpc hbody
    case h_2 => cases h
  | write written samples =>
    simp only [step,write] at h
    split at h
    case h_1 toRequest hpc hbody =>
      split at h
      case isTrue hasked =>
        obtain ⟨hle,hlen⟩ := hasked
        split at h
        case isTrue hnone =>
          subst hnone
          obtain rfl : samples = [] := List.length_eq_zero_iff.mp (by simpa using hlen)
          cases h
          exact .continues hpc hbody
        case isFalse hpos =>
          cases h
          exact .obtains hpc hbody (Nat.pos_of_ne_zero hpos) hle hlen
      case isFalse => cases h
    case h_2 => cases h
  | getBuffer res =>
    simp only [step,getBuffer] at h
    split at h
    case h_1 toRequest hpc hbody =>
      split at h
      case isTrue hroom =>
        cases h
        exact .offers hpc hbody hroom.2
      case isFalse => cases h
    case h_2 => cases h
  | render frames =>
    simp only [step,render] at h
    split at h
    case isTrue hle =>
      cases h
      exact .renders hle
    case isFalse => cases h

def controlStep (c : WasapiOutputDevice.State) : WasapiOutputDevice.Action ⊕ Bool → Option WasapiOutputDevice.State
  | .inl b => (WasapiOutputDevice.step c b).map Prod.fst
  | .inr destroying => WasapiOutputDevice.beginStop c destroying

theorem controlStep_inl {c d : WasapiOutputDevice.State} {ms : List Message} {b : WasapiOutputDevice.Action}
    (h : WasapiOutputDevice.step c b = some (d,ms)) : ∃ b, controlStep c b = some d := by
  refine ⟨.inl b,?_⟩
  rw [controlStep,h]
  rfl

omit [Zero α] in
theorem controlStep_mixing (hpc : s.control.mixing = .mixing) :
    ∃ b, controlStep s.control b = some { s.control with mixing := .testing } := by
  refine ⟨.inl .mixing,?_⟩
  simp [controlStep,WasapiOutputDevice.step,WasapiOutputDevice.mixingThread,hpc]

/-- Each step is one of `WasapiOutputDevice`, or one inside the body of the loop or of the
endpoint. -/
theorem Move.control (hm : Move s a t) : t.control = s.control ∨ ∃ b, controlStep s.control b = some t.control := by
  cases hm with
  | main _ h => exact Or.inr (controlStep_inl (b := .main) h)
  | starts hpc =>
    refine Or.inr ⟨.inl .main,?_⟩
    simp [controlStep,WasapiOutputDevice.step,WasapiOutputDevice.mainThread,hpc]
  | @client answer _ _ _ h => exact Or.inr (controlStep_inl (b := .client answer) h)
  | @initThrows initialized message hpc =>
    refine Or.inr ⟨.inl (.initThrows initialized message),?_⟩
    simp [controlStep,WasapiOutputDevice.step,WasapiOutputDevice.initThrows,hpc]
  | @stop destroying _ h => exact Or.inr ⟨.inr destroying,h⟩
  | mixes _ _ h => exact Or.inr (controlStep_inl (b := .mixing) h)
  | exits hpc =>
    refine Or.inr ⟨.inl .mixing,?_⟩
    simp [controlStep,WasapiOutputDevice.step,WasapiOutputDevice.mixingThread,hpc]
  | @coInitialize res _ _ h => exact Or.inr (controlStep_inl (b := .coInitialize res) h)
  | @connects answer _ hpc =>
    refine Or.inr ⟨.inl (.getService answer),?_⟩
    simp [controlStep,WasapiOutputDevice.step,WasapiOutputDevice.getService,hpc]
  | continues hpc => exact Or.inr (controlStep_mixing hpc)
  | queries | obtains | offers | renders => exact Or.inl rfl

theorem controlStep_threadInv {c d : WasapiOutputDevice.State} {b : WasapiOutputDevice.Action ⊕ Bool}
    (hc : WasapiOutputDevice.ThreadInv c) (h : controlStep c b = some d) : WasapiOutputDevice.ThreadInv d := by
  cases b with
  | inl b =>
    obtain ⟨⟨d,ms⟩,hd,rfl⟩ := Option.map_eq_some_iff.mp h
    exact hc.step hd
  | inr destroying => exact hc.beginStop h

theorem Reachable.control (h : Reachable s) : Reaches controlStep (fun _ => True) {} s.control :=
  Reaches.project State.control (fun _ _ _ _ hstep =>
    (Move.of_step hstep).control.imp_right fun ⟨b,hb⟩ => ⟨b,trivial,hb⟩) h

theorem Reachable.threadInv (h : Reachable s) : WasapiOutputDevice.ThreadInv s.control :=
  Reaches.invariant h.control WasapiOutputDevice.initial_threadInv fun _ _ _ _ hc hstep => controlStep_threadInv hc hstep

end WasapiMixing
end AudioOutput
