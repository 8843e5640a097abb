import AudioOutput.Buffer
import AudioOutput.Transition

/-!
# The logger

`Logger` of logger_singleton with any number of client threads, its logging
thread and the thread that destroys it. A section under the mutex is one step,
and so are a notification, the read of `format_workspace` behind the unlock and
the call of the callback. A thread in `check_cond.wait` may wake up on its own.
-/

namespace AudioOutput
namespace Logger

universe u

inductive LoggingLevel
  | debug | info | critical | off
  deriving DecidableEq

def LoggingLevel.value : LoggingLevel → ℕ
  | .debug => 10
  | .info => 20
  | .critical => 30
  | .off => 40

abbrev Text := List UInt8

structure LogMessage where
  level : LoggingLevel
  topic : Text
  message : Text
  deriving DecidableEq

def formatWorkspaceSize : ℕ := 10000

/-- `snprintf` into an array of that size: what fits, and a terminator. -/
def snprintf (workspace : Text) (size : ℕ) (formatted : Text) : Text :=
  Buffer.splice workspace 0 (formatted.take (size-1) ++ [0])

/-- `std::string(const char*)` reads up to the terminator. -/
def cString (workspace : Text) : Text := workspace.takeWhile (· ≠ 0)

def cut (formatted : Text) : Text := cString (formatted.take (formatWorkspaceSize-1))

/-- Points of the calls of the clients: `formatting` is `snprintf` into `format_workspace`, `reading`
makes a string of what is there, and the others are named for what is done next. -/
inductive ClientPc (C : Type u)
  | idle
  | formatting (level : LoggingLevel) (topic formatted : Text)
  | reading (level : LoggingLevel) (topic msg : Text)
  | pushing (msg : LogMessage)
  | notifying
  | settingLevel (level : LoggingLevel)
  | settingCallback (cb : Option C)

/-- Points of `loggingThreadFunction`: `testing` and `woken` are about to lock, at the top of the loop
and in `check_cond.wait`. -/
inductive LoggingPc (C : Type u)
  | testing
  | asleep
  | woken
  | calling (msg : LogMessage) (cb : Option C) (needsCallback : Bool)
  | returned

/-- Points of the destructor: it sets `running`, notifies and joins. -/
inductive OwnerPc
  | alive
  | stopping
  | notifying
  | joining
  | destroyed
  deriving DecidableEq

/-- What the logging thread took from the queue, with the callback and the level
in force at that moment. -/
structure Dequeued (C : Type u) where
  msg : LogMessage
  callback : Option C
  level : LoggingLevel

/-- `callback && msg.level >= level`. -/
def Dequeued.needsCallback {C : Type u} (d : Dequeued C) : Bool :=
  d.callback.isSome && decide (d.level.value ≤ d.msg.level.value)

/-- The members of the class, the program counters with their locals, and the
history: the calls begun, by thread and message to come out of them; the texts
formatted; the messages pushed, dequeued and passed to a callback. -/
structure State (T C : Type u) where
  queue : List LogMessage := []
  running : Bool := true
  callback : Option C := none
  level : LoggingLevel := .info
  workspace : Text
  client : T → ClientPc C := fun _ => .idle
  logging : LoggingPc C := .testing
  owner : OwnerPc := .alive
  asked : List (T × LogMessage) := []
  formatted : List Text := []
  pushed : List (T × LogMessage) := []
  dequeued : List (Dequeued C) := []
  called : List (C × LogMessage) := []

variable {T C : Type u} [DecidableEq T]

def initial (T C : Type u) (workspace : Text) : State T C where
  workspace := workspace

inductive Action (T C : Type u) : Type u
  | submitMessage (t : T) (msg : LogMessage)
  | submitFormattedMessage (t : T) (level : LoggingLevel) (topic formatted : Text)
  | setLoggingLevel (t : T) (level : LoggingLevel)
  | setLoggingCallback (t : T) (cb : Option C)
  | client (t : T)
  | logging
  | spurious
  | destroy
  | owner

def State.setClient (s : State T C) (t : T) (pc : ClientPc C) : State T C :=
  { s with client := Function.update s.client t pc }

/-- `notify_one`; nobody but the logging thread ever waits. -/
def State.notify (s : State T C) : State T C :=
  { s with logging := match s.logging with | .asleep => .woken | pc => pc }

def own (level : LoggingLevel) (topic formatted : Text) : LogMessage := ⟨level,topic,cut formatted⟩

def begin (s : State T C) (t : T) (pc : ClientPc C) : Option (State T C) :=
  match s.client t, s.owner with
  | .idle, .alive => some (s.setClient t pc)
  | _, _ => none

def clientThread (s : State T C) (t : T) : Option (State T C) :=
  match s.client t with
  | .idle => none
  | .formatting level topic formatted =>
    let workspace := snprintf s.workspace formatWorkspaceSize formatted
    some { s.setClient t (.reading level topic (cString workspace)) with
      workspace := workspace, formatted := s.formatted ++ [formatted] }
  | .reading level topic _ => some (s.setClient t (.pushing ⟨level,topic,cString s.workspace⟩))
  | .pushing msg =>
    some { s.setClient t .notifying with queue := s.queue ++ [msg], pushed := s.pushed ++ [(t,msg)] }
  | .notifying => some (s.notify.setClient t .idle)
  | .settingLevel level => some { s.setClient t .idle with level := level }
  | .settingCallback cb => some { s.setClient t .idle with callback := cb }

/-- The part of the loop's body from `message_queue.front()` to the unlock. -/
def takeFront (s : State T C) (msg : LogMessage) (rest : List LogMessage) : State T C :=
  let d : Dequeued C := ⟨msg,s.callback,s.level⟩
  { s with
    queue := rest
    dequeued := s.dequeued ++ [d]
    logging := .calling msg s.callback d.needsCallback }

def loggingThread (s : State T C) : Option (State T C) :=
  match s.logging with
  | .testing =>
    match s.queue with
    | [] => if s.running = false then some { s with logging := .returned } else some { s with logging := .asleep }
    | msg :: rest => some (takeFront s msg rest)
  | .asleep => none
  | .woken =>
    match s.queue with
    | [] => some { s with logging := .testing }
    | msg :: rest => some (takeFront s msg rest)
  | .calling msg (some cb) true => some { s with called := s.called ++ [(cb,msg)], logging := .testing }
  | .calling _ _ _ => some { s with logging := .testing }
  | .returned => none

def ownerThread (s : State T C) : Option (State T C) :=
  match s.owner with
  | .alive => none
  | .stopping => some { s with running := false, owner := .notifying }
  | .notifying => some { s.notify with owner := .joining }
  | .joining =>
    match s.logging with
    | .returned => some { s with owner := .destroyed }
    | _ => none
  | .destroyed => none

def ClientPc.isIdle : ClientPc C → Bool
  | .idle => true
  | _ => false

def step [Fintype T] (s : State T C) : Action T C → Option (State T C)
  | .submitMessage t msg =>
    (begin s t (.pushing msg)).map fun s => { s with asked := s.asked ++ [(t,msg)] }
  | .submitFormattedMessage t level topic formatted =>
    (begin s t (.formatting level topic formatted)).map fun s =>
      { s with asked := s.asked ++ [(t,own level topic formatted)] }
  | .setLoggingLevel t level => begin s t (.settingLevel level)
  | .setLoggingCallback t cb => begin s t (.settingCallback cb)
  | .client t => clientThread s t
  | .logging => loggingThread s
  | .spurious =>
    match s.logging with
    | .asleep => some { s with logging := .woken }
    | _ => none
  | .destroy =>
    if s.owner = .alive ∧ ∀ t, (s.client t).isIdle = true then some { s with owner := .stopping } else none
  | .owner => ownerThread s

def Reachable [Fintype T] (s : State T C) : Prop :=
  ∃ workspace, Transition.Reaches step (fun _ => True) (initial T C workspace) s

inductive Move (s : State T C) : Action T C → State T C → Prop
  | submit {t : T} {msg : LogMessage} (hpc : s.client t = .idle) (hown : s.owner = .alive) :
      Move s (.submitMessage t msg) { s.setClient t (.pushing msg) with asked := s.asked ++ [(t,msg)] }
  | submitFormatted {t : T} {level : LoggingLevel} {topic formatted : Text} (hpc : s.client t = .idle)
      (hown : s.owner = .alive) :
      Move s (.submitFormattedMessage t level topic formatted)
        { s.setClient t (.formatting level topic formatted) with
          asked := s.asked ++ [(t,own level topic formatted)] }
  | beginLevel {t : T} {level : LoggingLevel} (hpc : s.client t = .idle) (hown : s.owner = .alive) :
      Move s (.setLoggingLevel t level) (s.setClient t (.settingLevel level))
  | beginCallback {t : T} {cb : Option C} (hpc : s.client t = .idle) (hown : s.owner = .alive) :
      Move s (.setLoggingCallback t cb) (s.setClient t (.settingCallback cb))
  | format {t : T} {level : LoggingLevel} {topic formatted : Text} (hpc : s.client t = .formatting level topic formatted) :
      Move s (.client t)
        { s.setClient t (.reading level topic (cString (snprintf s.workspace formatWorkspaceSize formatted))) with
          workspace := snprintf s.workspace formatWorkspaceSize formatted
          formatted := s.formatted ++ [formatted] }
  | read {t : T} {level : LoggingLevel} {topic msg : Text} (hpc : s.client t = .reading level topic msg) :
      Move s (.client t) (s.setClient t (.pushing ⟨level,topic,cString s.workspace⟩))
  | push {t : T} {msg : LogMessage} (hpc : s.client t = .pushing msg) :
      Move s (.client t) { s.setClient t .notifying with
        queue := s.queue ++ [msg], pushed := s.pushed ++ [(t,msg)] }
  | notify {t : T} (hpc : s.client t = .notifying) : Move s (.client t) (s.notify.setClient t .idle)
  | setLevel {t : T} {level : LoggingLevel} (hpc : s.client t = .settingLevel level) :
      Move s (.client t) { s.setClient t .idle with level := level }
  | setCallback {t : T} {cb : Option C} (hpc : s.client t = .settingCallback cb) :
      Move s (.client t) { s.setClient t .idle with callback := cb }
  | exit (hpc : s.logging = .testing) (hq : s.queue = []) (hrun : s.running = false) :
      Move s .logging { s with logging := .returned }
  | sleep (hpc : s.logging = .testing) (hq : s.queue = []) (hrun : s.running = true) :
      Move s .logging { s with logging := .asleep }
  | recheck (hpc : s.logging = .woken) (hq : s.queue = []) : Move s .logging { s with logging := .testing }
  | take {msg : LogMessage} {rest : List LogMessage} (hpc : s.logging = .testing ∨ s.logging = .woken)
      (hq : s.queue = msg :: rest) : Move s .logging (takeFront s msg rest)
  | call {msg : LogMessage} {cb : C} (hpc : s.logging = .calling msg (some cb) true) :
      Move s .logging { s with called := s.called ++ [(cb,msg)], logging := .testing }
  | pass {msg : LogMessage} {cb : Option C} {needsCallback : Bool} (hpc : s.logging = .calling msg cb needsCallback)
      (hno : ¬(cb.isSome = true ∧ needsCallback = true)) : Move s .logging { s with logging := .testing }
  | spurious (hpc : s.logging = .asleep) : Move s .spurious { s with logging := .woken }
  | destroy (hown : s.owner = .alive) (hidle : ∀ t, s.client t = .idle) :
      Move s .destroy { s with owner := .stopping }
  | stop (hown : s.owner = .stopping) : Move s .owner { s with running := false, owner := .notifying }
  | ownerNotify (hown : s.owner = .notifying) : Move s .owner { s.notify with owner := .joining }
  | join (hown : s.owner = .joining) (hpc : s.logging = .returned) : Move s .owner { s with owner := .destroyed }

@[simp] theorem ClientPc.isIdle_iff {pc : ClientPc C} : pc.isIdle = true ↔ pc = .idle := by
  cases pc <;> simp [ClientPc.isIdle]

theorem begin_eq_some {s u : State T C} {t : T} {pc : ClientPc C} (h : begin s t pc = some u) :
    s.client t = .idle ∧ s.owner = .alive ∧ u = s.setClient t pc := by
  unfold begin at h
  split at h
  case h_1 hpc hown =>
    cases h
    exact ⟨hpc,hown,rfl⟩
  case h_2 => cases h

theorem Move.of_client {s u : State T C} {t : T} (h : clientThread s t = some u) : Move s (.client t) u := by
  unfold clientThread at h
  split at h
  case h_1 => cases h
  case h_2 hpc => cases h; exact .format hpc
  case h_3 hpc => cases h; exact .read hpc
  case h_4 hpc => cases h; exact .push hpc
  case h_5 hpc => cases h; exact .notify hpc
  case h_6 hpc => cases h; exact .setLevel hpc
  case h_7 hpc => cases h; exact .setCallback hpc

theorem Move.of_logging {s u : State T C} (h : loggingThread s = some u) : Move s .logging u := by
  unfold loggingThread at h
  split at h
  case h_1 hpc =>
    split at h
    case h_1 hq =>
      by_cases hrun : s.running = false
      · rw [if_pos hrun,Option.some.injEq] at h
        exact h ▸ .exit hpc hq hrun
      · rw [if_neg hrun,Option.some.injEq] at h
        exact h ▸ .sleep hpc hq (by simpa using hrun)
    case h_2 hq => cases h; exact .take (Or.inl hpc) hq
  case h_2 => cases h
  case h_3 hpc =>
    split at h
    case h_1 hq => cases h; exact .recheck hpc hq
    case h_2 hq => cases h; exact .take (Or.inr hpc) hq
  case h_4 hpc => cases h; exact .call hpc
  case h_5 msg cb needs hno hpc =>
    cases h
    refine .pass hpc ?_
    rintro ⟨hcb,rfl⟩
    obtain ⟨c,rfl⟩ := Option.isSome_iff_exists.mp hcb
    exact hno c rfl rfl
  case h_6 => cases h

theorem Move.of_owner {s u : State T C} (h : ownerThread s = some u) : Move s .owner u := by
  unfold ownerThread at h
  split at h
  case h_1 => cases h
  case h_2 hown => cases h; exact .stop hown
  case h_3 hown => cases h; exact .ownerNotify hown
  case h_4 hown =>
    split at h
    case h_1 hpc => cases h; exact .join hown hpc
    case h_2 => cases h
  case h_5 => cases h

theorem Move.of_step [Fintype T] {s u : State T C} {a : Action T C} (h : step s a = some u) : Move s a u := by
  cases a with
  | submitMessage t msg =>
    obtain ⟨v,hv,rfl⟩ := Option.map_eq_some_iff.mp h
    obtain ⟨hpc,hown,rfl⟩ := begin_eq_some hv
    exact .submit hpc hown
  | submitFormattedMessage t level topic formatted =>
    obtain ⟨v,hv,rfl⟩ := Option.map_eq_some_iff.mp h
    obtain ⟨hpc,hown,rfl⟩ := begin_eq_some hv
    exact .submitFormatted hpc hown
  | setLoggingLevel t level =>
    obtain ⟨hpc,hown,rfl⟩ := begin_eq_some h
    exact .beginLevel hpc hown
  | setLoggingCallback t cb =>
    obtain ⟨hpc,hown,rfl⟩ := begin_eq_some h
    exact .beginCallback hpc hown
  | client t => exact .of_client h
  | logging => exact .of_logging h
  | spurious =>
    simp only [step] at h
    split at h
    case h_1 hpc => cases h; exact .spurious hpc
    case h_2 => cases h
  | destroy =>
    by_cases hidle : s.owner = .alive ∧ ∀ t, (s.client t).isIdle = true
    · rw [step,if_pos hidle,Option.some.injEq] at h
      exact h ▸ .destroy hidle.1 fun t => ClientPc.isIdle_iff.mp (hidle.2 t)
    · rw [step,if_neg hidle] at h
      cases h
  | owner => exact .of_owner h

end Logger
end AudioOutput
