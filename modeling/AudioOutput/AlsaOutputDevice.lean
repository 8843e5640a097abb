import AudioOutput.Buffer
import AudioOutput.Transition

/-!
# The ALSA device

`AlsaOutputDevice` as two threads: the application's, which runs the constructor,
`stop` and the destructor, and the I/O thread. One step is one call of ALSA, of
the mixahead worker or of the thread library; what the call answers is part of
the label.
-/

namespace AudioOutput
namespace AlsaOutputDevice

universe u

/-- The calls that configure an open handle, in the constructor's order. -/
inductive ConfigCall
  | hwParamsAny | setFormat | setChannelsNear | setRateNear | setAccess | setPeriodSizeNear
  | setBufferSizeFirst | hwParams
  | swParamsCurrent | setStartThreshold | setSilenceThreshold | setSilenceSize | setAvailMin | swParams
  deriving DecidableEq

/-- Text of the `AudioIOError` thrown when the call fails. -/
def ConfigCall.message : ConfigCall → String
  | .hwParamsAny => "Alsa: could not configuer PCM device."
  | .setFormat => "ALSA: Couldn't get little endian float."
  | .setChannelsNear => "Couldn't constrain channel count."
  | .setRateNear => "ALSA: Couldn't constrain sample rate."
  | .setAccess => "ALSA: couldn't set access."
  | .setPeriodSizeNear => "ALSA: Couldn't set period size."
  | .setBufferSizeFirst => "ALSA: couldn't set buffer size."
  | .hwParams => "ALSA: Could not prepare device."
  | .swParamsCurrent => "ALSA: couldn't get current software parameters."
  | .setStartThreshold => "ALSA: couldn't set startup threshold."
  | .setSilenceThreshold => "ALSA: Couldn't set silence threshold."
  | .setSilenceSize => "ALSA: couldn't set silence size."
  | .setAvailMin => "ALSA: couldn't set avail_min"
  | .swParams => "ALSA: couldn't install software params."

def openMessage : String := "An Alsa Error occurred."

/-- Variables of the constructor that ALSA is given and may overwrite. -/
structure Locals where
  alsaChannels : ℕ
  alsaSr : ℕ
  alsaPeriodSize : ℕ := 2048
  alsaBufferSize : ℕ := 0

/-- The size or count the call is given; the others get a constant. -/
def ConfigCall.argument (l : Locals) : ConfigCall → Option ℕ
  | .setChannelsNear => some l.alsaChannels
  | .setRateNear => some l.alsaSr
  | .setPeriodSizeNear | .setSilenceThreshold | .setAvailMin => some l.alsaPeriodSize
  | .setBufferSizeFirst | .setStartThreshold | .setSilenceSize => some l.alsaBufferSize
  | _ => none

/-- What the call leaves in the variable it was given the address of; the period
size is at once the first guess of the buffer size too. -/
def ConfigCall.store (l : Locals) (value : ℕ) : ConfigCall → Locals
  | .setChannelsNear => { l with alsaChannels := value }
  | .setRateNear => { l with alsaSr := value }
  | .setPeriodSizeNear => { l with alsaPeriodSize := value, alsaBufferSize := 2*value }
  | .setBufferSizeFirst => { l with alsaBufferSize := value }
  | _ => l

/-- Points of the constructor, of `stop` and of the destructor. `sizing` is the loop that grows
`alsaBufferSize`, `starting` calls `init` and starts the thread, `leaving` sets `stopped`. -/
inductive MainPc
  | opening
  | configuring (call : ConfigCall)
  | sizing
  | starting
  | constructed
  | stopping (destroying : Bool)
  | joining (destroying : Bool)
  | leaving (destroying : Bool)
  | threw (message : String)
  | destroyed
  deriving DecidableEq

def ConfigCall.next : ConfigCall → MainPc
  | .hwParamsAny => .configuring .setFormat
  | .setFormat => .configuring .setChannelsNear
  | .setChannelsNear => .configuring .setRateNear
  | .setRateNear => .configuring .setAccess
  | .setAccess => .configuring .setPeriodSizeNear
  | .setPeriodSizeNear => .sizing
  | .setBufferSizeFirst => .configuring .hwParams
  | .hwParams => .configuring .swParamsCurrent
  | .swParamsCurrent => .configuring .setStartThreshold
  | .setStartThreshold => .configuring .setSilenceThreshold
  | .setSilenceThreshold => .configuring .setSilenceSize
  | .setSilenceSize => .configuring .setAvailMin
  | .setAvailMin => .configuring .swParams
  | .swParams => .starting

/-- The three uses of `ALSAREC`. -/
inductive Checked
  | availUpdate
  | writei (written : ℕ)
  | wait
  deriving DecidableEq

/-- Points of `workerThreadFunction`, named for what is called next; `testing` is the condition of
the loop, `recovering` the call inside `ALSAREC`, and `cleanup` the label `CLEANUP`. -/
inductive IoPc
  | unstarted
  | awaiting
  | testing
  | updating
  | recovering (err : ℤ) (what : Checked)
  | obtaining (available : ℕ)
  | submitting (written : ℕ)
  | waiting
  | draining
  | closing
  | cleanup
  | returned
  deriving DecidableEq

/-- Where a recovered error leaves the loop; only the first use is followed by `continue`. -/
def Checked.resume : Checked → IoPc
  | .availUpdate | .wait => .testing
  | .writei _ => .waiting

/-- The calls made on the handle. -/
inductive Call
  | pcmOpen
  | configure (call : ConfigCall) (argument : Option ℕ)
  | availUpdate | recover (err : ℤ) | writei (frames : ℕ) | wait | drain | close
  deriving DecidableEq

structure Config where
  channels : ℕ
  sr : ℕ

/-- The members of the class, the locals of both threads, and the history: the
ALSA calls, the frames taken from the worker, the frames ALSA took, and those
that `snd_pcm_writei` has been or is about to be offered without an answer yet. -/
structure State (α : Type u) where
  locals : Locals
  main : MainPc := .opening
  deviceOpen : Bool := false
  outputChannels : ℕ := 0
  outputSr : ℕ := 0
  alsaBufferFrames : ℕ := 0
  workerRunning : Bool := false
  joinable : Bool := false
  stopped : Bool := false
  io : IoPc := .unstarted
  workspace : List α := []
  calls : List Call := []
  obtained : List (List α) := []
  accepted : List (List α) := []
  pending : List (List α) := []

variable {α : Type u}

def initial (α : Type u) (cfg : Config) : State α where
  locals := { alsaChannels := cfg.channels, alsaSr := cfg.sr }

inductive Action (α : Type u)
  | main
  | io
  | pcmOpen (res : ℤ)
  | configure (res : ℤ) (value : ℕ)
  | initThrows (initialized : Bool) (message : String)
  | availUpdate (res : ℤ)
  | recover (res : ℤ)
  | write (written : ℕ) (samples : List α)
  | writei (res : ℤ)
  | wait (res : ℤ)
  | stop
  | destroy

def frames (channels : ℕ) : ℕ → List α → List (List α)
  | 0, _ => []
  | n+1, buffer => buffer.take channels :: frames channels n (buffer.drop channels)

def swapCells (xs : List α) (i j : ℕ) : List α :=
  match xs[i]?, xs[j]? with
  | some a, some b => (xs.set i b).set j a
  | _, _ => xs

/-- One turn of the loop that reorders the channels, at the frame that starts at `i`. -/
def reorderAt (channels : ℕ) (xs : List α) (i : ℕ) : List α :=
  swapCells (swapCells xs (i+2) (i+(channels-2))) (i+3) (i+(channels-1))

def reorderLoop (channels : ℕ) : ℕ → ℕ → List α → List α
  | 0, _, xs => xs
  | n+1, i, xs => reorderLoop channels n (i+channels) (reorderAt channels xs i)

/-- Centre and LFE go last in 5.1 and 7.1; every other layout is left alone. -/
def reorder (channels written : ℕ) (xs : List α) : List α :=
  if channels = 6 ∨ channels = 8 then reorderLoop channels written 0 xs else xs

def State.call (s : State α) (c : Call) : State α := { s with calls := s.calls ++ [c] }

/-- `ALSAREC` at an answer that is not an error goes on at `next`. -/
def State.check (s : State α) (res : ℤ) (what : Checked) (next : IoPc) : State α :=
  if res < 0 then { s with io := .recovering res what } else { s with io := next }

/-- What an answered or abandoned `snd_pcm_writei` leaves undelivered is given up. -/
def State.release (s : State α) (what : Checked) : State α :=
  { s with pending := match what with | .writei _ => [] | _ => s.pending }

def mainThread (s : State α) : Option (State α) :=
  match s.main with
  | .sizing =>
    let l := s.locals
    if l.alsaBufferSize < 8192 then
      some { s with locals := { l with alsaBufferSize := l.alsaBufferSize+l.alsaPeriodSize } }
    else some { s with main := .configuring .setBufferSizeFirst }
  | .starting => some { s with
      outputChannels := s.locals.alsaChannels
      outputSr := s.locals.alsaSr
      workerRunning := true
      joinable := true
      io := .awaiting
      main := .constructed }
  | .stopping destroying =>
    if s.stopped = false ∧ s.joinable = true then
      some { s with workerRunning := false, main := .joining destroying }
    else some { s with main := .leaving destroying }
  | .joining destroying =>
    if s.io = .returned then some { s with joinable := false, main := .leaving destroying } else none
  | .leaving destroying =>
    some { s with stopped := true, main := if destroying then .destroyed else .constructed }
  | _ => none

def openPcm (s : State α) (res : ℤ) : Option (State α) :=
  match s.main with
  | .opening =>
    if res ≠ 0 then some { s.call .pcmOpen with main := .threw openMessage }
    else some { s.call .pcmOpen with deviceOpen := true, main := .configuring .hwParamsAny }
  | _ => none

/-- `alsa_buffer_frames` is set between `set_buffer_size_first` and `hw_params`. -/
def configure (s : State α) (res : ℤ) (value : ℕ) : Option (State α) :=
  match s.main with
  | .configuring c =>
    let s' := { s.call (.configure c (c.argument s.locals)) with locals := c.store s.locals value }
    if res < 0 then some { s' with main := .threw c.message }
    else some { s' with
      alsaBufferFrames := if c = .setBufferSizeFirst then value else s.alsaBufferFrames
      main := c.next }
  | _ => none

/-- `init`, or the start of the thread after it, throws what speex, the allocator or the
system has to say about the parameters. -/
def initThrows (s : State α) (message : String) : Option (State α) :=
  match s.main with
  | .starting => some { s with main := .threw message }
  | _ => none

def beginStop (s : State α) (destroying : Bool) : Option (State α) :=
  match s.main with
  | .constructed => some { s with main := .stopping destroying }
  | _ => none

/-- Steps of the I/O thread whose outcome nobody else decides; the initial mix may
be awaited for any time. -/
def ioThread [Zero α] (s : State α) : Option (State α) :=
  match s.io with
  | .awaiting => some { s with
      workspace := List.replicate (s.alsaBufferFrames*s.outputChannels) 0
      io := .testing }
  | .testing =>
    some { s with workerRunning := true, io := if s.workerRunning then .updating else .draining }
  | .draining => some { s.call .drain with io := .closing }
  | .closing => some { s.call .close with io := .cleanup }
  | .cleanup => some { s with workspace := [], io := .returned }
  | _ => none

/-- `snd_pcm_avail_update`, cut to the size of the workspace. -/
def availUpdate (s : State α) (res : ℤ) : Option (State α) :=
  match s.io with
  | .updating =>
    let available := if s.alsaBufferFrames < res then s.alsaBufferFrames else res.toNat
    some ((s.call .availUpdate).check res .availUpdate (.obtaining available))
  | _ => none

/-- `snd_pcm_recover`; the loop is left for `CLEANUP` when it fails. -/
def recover (s : State α) (res : ℤ) : Option (State α) :=
  match s.io with
  | .recovering err what =>
    if res < 0 then some { s.call (.recover err) with io := .cleanup }
    else some { (s.call (.recover err)).release what with io := what.resume }
  | _ => none

/-- `OutputWorkerThread::write` hands over at most the frames asked for; then the
channels are reordered in place. -/
def write (s : State α) (written : ℕ) (samples : List α) : Option (State α) :=
  match s.io with
  | .obtaining available =>
    if written ≤ available ∧ samples.length = written*s.outputChannels then
      let workspace := reorder s.outputChannels written (Buffer.splice s.workspace 0 samples)
      some { s with
        workspace := workspace
        obtained := s.obtained ++ frames s.outputChannels written samples
        pending := frames s.outputChannels written workspace
        io := .submitting written }
    else none
  | _ => none

/-- `snd_pcm_writei` takes the first `res` frames of the workspace, or fails. -/
def writei (s : State α) (res : ℤ) : Option (State α) :=
  match s.io with
  | .submitting written =>
    if res < 0 then some { s.call (.writei written) with io := .recovering res (.writei written) }
    else if res ≤ written then some { (s.call (.writei written)).release (.writei written) with
      accepted := s.accepted ++ frames s.outputChannels res.toNat s.workspace
      io := .waiting }
    else none
  | _ => none

def wait (s : State α) (res : ℤ) : Option (State α) :=
  match s.io with
  | .waiting => some ((s.call .wait).check res .wait .testing)
  | _ => none

def step [Zero α] (s : State α) : Action α → Option (State α)
  | .main => mainThread s
  | .io => ioThread s
  | .pcmOpen res => openPcm s res
  | .configure res value => configure s res value
  | .initThrows _ message => initThrows s message
  | .availUpdate res => availUpdate s res
  | .recover res => recover s res
  | .write written samples => write s written samples
  | .writei res => writei s res
  | .wait res => wait s res
  | .stop => beginStop s false
  | .destroy => beginStop s true

inductive Move [Zero α] (s : State α) : Action α → State α → Prop
  | openFails {res : ℤ} (hpc : s.main = .opening) (hres : res ≠ 0) :
      Move s (.pcmOpen res) { s.call .pcmOpen with main := .threw openMessage }
  | opens (hpc : s.main = .opening) :
      Move s (.pcmOpen 0) { s.call .pcmOpen with deviceOpen := true, main := .configuring .hwParamsAny }
  | configureFails {c : ConfigCall} {res : ℤ} {value : ℕ} (hpc : s.main = .configuring c) (hres : res < 0) :
      Move s (.configure res value) { s.call (.configure c (c.argument s.locals)) with
        locals := c.store s.locals value
        main := .threw c.message }
  | configures {c : ConfigCall} {res : ℤ} {value : ℕ} (hpc : s.main = .configuring c) (hres : 0 ≤ res) :
      Move s (.configure res value) { s.call (.configure c (c.argument s.locals)) with
        locals := c.store s.locals value
        alsaBufferFrames := if c = .setBufferSizeFirst then value else s.alsaBufferFrames
        main := c.next }
  | grow (hpc : s.main = .sizing) (hsmall : s.locals.alsaBufferSize < 8192) :
      Move s .main { s with locals := { s.locals with
        alsaBufferSize := s.locals.alsaBufferSize+s.locals.alsaPeriodSize } }
  | sized (hpc : s.main = .sizing) (hlarge : 8192 ≤ s.locals.alsaBufferSize) :
      Move s .main { s with main := .configuring .setBufferSizeFirst }
  | start (hpc : s.main = .starting) :
      Move s .main { s with
        outputChannels := s.locals.alsaChannels
        outputSr := s.locals.alsaSr
        workerRunning := true
        joinable := true
        io := .awaiting
        main := .constructed }
  | initThrows {initialized : Bool} {message : String} (hpc : s.main = .starting) :
      Move s (.initThrows initialized message) { s with main := .threw message }
  | stop (hpc : s.main = .constructed) : Move s .stop { s with main := .stopping false }
  | destroy (hpc : s.main = .constructed) : Move s .destroy { s with main := .stopping true }
  | clear {destroying : Bool} (hpc : s.main = .stopping destroying) (hstop : s.stopped = false)
      (hjoin : s.joinable = true) :
      Move s .main { s with workerRunning := false, main := .joining destroying }
  | skip {destroying : Bool} (hpc : s.main = .stopping destroying)
      (hdone : ¬(s.stopped = false ∧ s.joinable = true)) :
      Move s .main { s with main := .leaving destroying }
  | join {destroying : Bool} (hpc : s.main = .joining destroying) (hio : s.io = .returned) :
      Move s .main { s with joinable := false, main := .leaving destroying }
  | leave {destroying : Bool} (hpc : s.main = .leaving destroying) :
      Move s .main { s with stopped := true, main := if destroying then .destroyed else .constructed }
  | prepare (hpc : s.io = .awaiting) :
      Move s .io { s with workspace := List.replicate (s.alsaBufferFrames*s.outputChannels) 0, io := .testing }
  | test (hpc : s.io = .testing) :
      Move s .io { s with workerRunning := true, io := if s.workerRunning then .updating else .draining }
  | drain (hpc : s.io = .draining) : Move s .io { s.call .drain with io := .closing }
  | close (hpc : s.io = .closing) : Move s .io { s.call .close with io := .cleanup }
  | cleanup (hpc : s.io = .cleanup) : Move s .io { s with workspace := [], io := .returned }
  | updateFails {res : ℤ} (hpc : s.io = .updating) (hres : res < 0) :
      Move s (.availUpdate res) { s.call .availUpdate with io := .recovering res .availUpdate }
  | updates {res : ℤ} (hpc : s.io = .updating) (hres : 0 ≤ res) :
      Move s (.availUpdate res) { s.call .availUpdate with
        io := .obtaining (if s.alsaBufferFrames < res then s.alsaBufferFrames else res.toNat) }
  | recoverFails {err res : ℤ} {what : Checked} (hpc : s.io = .recovering err what) (hres : res < 0) :
      Move s (.recover res) { s.call (.recover err) with io := .cleanup }
  | recovers {err res : ℤ} {what : Checked} (hpc : s.io = .recovering err what) (hres : 0 ≤ res) :
      Move s (.recover res) { (s.call (.recover err)).release what with io := what.resume }
  | obtains {available written : ℕ} {samples : List α} (hpc : s.io = .obtaining available)
      (hle : written ≤ available) (hlen : samples.length = written*s.outputChannels) :
      Move s (.write written samples) { s with
        workspace := reorder s.outputChannels written (Buffer.splice s.workspace 0 samples)
        obtained := s.obtained ++ frames s.outputChannels written samples
        pending := frames s.outputChannels written
          (reorder s.outputChannels written (Buffer.splice s.workspace 0 samples))
        io := .submitting written }
  | submitFails {written : ℕ} {res : ℤ} (hpc : s.io = .submitting written) (hres : res < 0) :
      Move s (.writei res) { s.call (.writei written) with io := .recovering res (.writei written) }
  | submits {written : ℕ} {res : ℤ} (hpc : s.io = .submitting written) (hres : 0 ≤ res) (hle : res ≤ written) :
      Move s (.writei res) { (s.call (.writei written)).release (.writei written) with
        accepted := s.accepted ++ frames s.outputChannels res.toNat s.workspace
        io := .waiting }
  | waitFails {res : ℤ} (hpc : s.io = .waiting) (hres : res < 0) :
      Move s (.wait res) { s.call .wait with io := .recovering res .wait }
  | waits {res : ℤ} (hpc : s.io = .waiting) (hres : 0 ≤ res) :
      Move s (.wait res) { s.call .wait with io := .testing }

theorem beginStop_eq_some {s t : State α} {destroying : Bool} (h : beginStop s destroying = some t) :
    s.main = .constructed ∧ t = { s with main := .stopping destroying } := by
  unfold beginStop at h
  split at h
  case h_1 hpc =>
    cases h
    exact ⟨hpc,rfl⟩
  case h_2 => cases h

theorem Move.of_main [Zero α] {s t : State α} (h : mainThread s = some t) : Move s .main t := by
  unfold mainThread at h
  split at h
  case h_1 hpc =>
    by_cases hsmall : s.locals.alsaBufferSize < 8192
    · simp only [hsmall,if_true,Option.some.injEq] at h
      exact h ▸ .grow hpc hsmall
    · simp only [hsmall,if_false,Option.some.injEq] at h
      exact h ▸ .sized hpc (not_lt.mp hsmall)
  case h_2 hpc =>
    cases h
    exact .start hpc
  case h_3 destroying hpc =>
    by_cases hrun : s.stopped = false ∧ s.joinable = true
    · rw [if_pos hrun,Option.some.injEq] at h
      exact h ▸ .clear hpc hrun.1 hrun.2
    · rw [if_neg hrun,Option.some.injEq] at h
      exact h ▸ .skip hpc hrun
  case h_4 destroying hpc =>
    by_cases hio : s.io = .returned
    · rw [if_pos hio,Option.some.injEq] at h
      exact h ▸ .join hpc hio
    · simp [hio] at h
  case h_5 destroying hpc =>
    cases h
    exact .leave hpc
  case h_6 => cases h

theorem Move.of_io [Zero α] {s t : State α} (h : ioThread s = some t) : Move s .io t := by
  unfold ioThread at h
  split at h
  case h_1 hpc => cases h; exact .prepare hpc
  case h_2 hpc => cases h; exact .test hpc
  case h_3 hpc => cases h; exact .drain hpc
  case h_4 hpc => cases h; exact .close hpc
  case h_5 hpc => cases h; exact .cleanup hpc
  case h_6 => cases h

theorem Move.of_pcmOpen [Zero α] {s t : State α} {res : ℤ} (h : openPcm s res = some t) :
    Move s (.pcmOpen res) t := by
  unfold openPcm at h
  split at h
  case h_1 hpc =>
    by_cases hres : res = 0
    · subst hres
      cases h
      exact .opens hpc
    · rw [if_pos hres,Option.some.injEq] at h
      exact h ▸ .openFails hpc hres
  case h_2 => cases h

theorem Move.of_configure [Zero α] {s t : State α} {res : ℤ} {value : ℕ} (h : configure s res value = some t) :
    Move s (.configure res value) t := by
  unfold configure at h
  split at h
  case h_1 c hpc =>
    by_cases hres : res < 0
    · simp only [hres,if_true,Option.some.injEq] at h
      exact h ▸ .configureFails hpc hres
    · simp only [hres,if_false,Option.some.injEq] at h
      exact h ▸ .configures hpc (not_lt.mp hres)
  case h_2 => cases h

theorem Move.of_initThrows [Zero α] {s t : State α} {initialized : Bool} {message : String}
    (h : AlsaOutputDevice.initThrows s message = some t) : Move s (.initThrows initialized message) t := by
  unfold AlsaOutputDevice.initThrows at h
  split at h
  case h_1 hpc =>
    cases h
    exact .initThrows hpc
  case h_2 => cases h

theorem Move.of_availUpdate [Zero α] {s t : State α} {res : ℤ} (h : availUpdate s res = some t) :
    Move s (.availUpdate res) t := by
  unfold availUpdate at h
  split at h
  case h_1 hpc =>
    by_cases hres : res < 0
    · simp only [State.check,hres,if_true,Option.some.injEq] at h
      exact h ▸ .updateFails hpc hres
    · simp only [State.check,hres,if_false,Option.some.injEq] at h
      exact h ▸ .updates hpc (not_lt.mp hres)
  case h_2 => cases h

theorem Move.of_recover [Zero α] {s t : State α} {res : ℤ} (h : recover s res = some t) :
    Move s (.recover res) t := by
  unfold recover at h
  split at h
  case h_1 err what hpc =>
    by_cases hres : res < 0
    · rw [if_pos hres,Option.some.injEq] at h
      exact h ▸ .recoverFails hpc hres
    · rw [if_neg hres,Option.some.injEq] at h
      exact h ▸ .recovers hpc (not_lt.mp hres)
  case h_2 => cases h

theorem Move.of_write [Zero α] {s t : State α} {written : ℕ} {samples : List α}
    (h : write s written samples = some t) : Move s (.write written samples) t := by
  unfold write at h
  split at h
  case h_1 available hpc =>
    by_cases hfits : written ≤ available ∧ samples.length = written*s.outputChannels
    · rw [if_pos hfits,Option.some.injEq] at h
      exact h ▸ .obtains hpc hfits.1 hfits.2
    · simp [hfits] at h
  case h_2 => cases h

theorem Move.of_writei [Zero α] {s t : State α} {res : ℤ} (h : writei s res = some t) :
    Move s (.writei res) t := by
  unfold writei at h
  split at h
  case h_1 written hpc =>
    by_cases hres : res < 0
    · rw [if_pos hres,Option.some.injEq] at h
      exact h ▸ .submitFails hpc hres
    · by_cases hle : res ≤ written
      · rw [if_neg hres,if_pos hle,Option.some.injEq] at h
        exact h ▸ .submits hpc (not_lt.mp hres) hle
      · simp [hres,hle] at h
  case h_2 => cases h

theorem Move.of_wait [Zero α] {s t : State α} {res : ℤ} (h : wait s res = some t) : Move s (.wait res) t := by
  unfold wait at h
  split at h
  case h_1 hpc =>
    by_cases hres : res < 0
    · simp only [State.check,hres,if_true,Option.some.injEq] at h
      exact h ▸ .waitFails hpc hres
    · simp only [State.check,hres,if_false,Option.some.injEq] at h
      exact h ▸ .waits hpc (not_lt.mp hres)
  case h_2 => cases h

theorem Move.of_step [Zero α] {s t : State α} {a : Action α} (h : step s a = some t) : Move s a t := by
  cases a with
  | main => exact .of_main h
  | io => exact .of_io h
  | pcmOpen res => exact .of_pcmOpen h
  | configure res value => exact .of_configure h
  | initThrows initialized message => exact .of_initThrows h
  | availUpdate res => exact .of_availUpdate h
  | recover res => exact .of_recover h
  | write written samples => exact .of_write h
  | writei res => exact .of_writei h
  | wait res => exact .of_wait h
  | stop =>
    obtain ⟨hpc,rfl⟩ := beginStop_eq_some h
    exact .stop hpc
  | destroy =>
    obtain ⟨hpc,rfl⟩ := beginStop_eq_some h
    exact .destroy hpc

def Reachable [Zero α] (cfg : Config) (s : State α) : Prop :=
  Transition.Reaches step (fun _ => True) (initial α cfg) s

theorem reachable_of_run [Zero α] {cfg : Config} {as : List (Action α)} {s : State α}
    (h : Transition.run step (initial α cfg) as = some s) : Reachable cfg s :=
  Transition.Reaches.of_run (fun _ _ => trivial) h

def mono : Config := ⟨1,44100⟩

def construct : List (Action ℕ) :=
  [.pcmOpen 0,.configure 0 0,.configure 0 0,.configure 0 1,.configure 0 44100,.configure 0 0,.configure 0 4096,
    .main,.configure 0 8192,.configure 0 0,.configure 0 0,.configure 0 0,.configure 0 0,.configure 0 0,
    .configure 0 0,.configure 0 0,.main,.io]

end AlsaOutputDevice
end AudioOutput
