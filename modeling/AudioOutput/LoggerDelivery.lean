import AudioOutput.Logger

/-!
# Delivery of log messages

The queue is a FIFO between the pushes and the logging thread, and the logging
thread never sleeps through a push or through the shutdown: whoever has changed
what it waits for has its notification still ahead.
-/

namespace AudioOutput
namespace Logger

open Transition

universe u
variable {T C : Type u}

/-- A message whose level is at least the one in force goes to the callback in force, if
there is one, and to nobody else. -/
def Dequeued.call (d : Dequeued C) : List (C × LogMessage) :=
  match d.callback with
  | some cb => if d.level.value ≤ d.msg.level.value then [(cb,d.msg)] else []
  | none => []

def LoggingPc.pendingCall : LoggingPc C → List (C × LogMessage)
  | .calling msg cb true => cb.toList.map (·,msg)
  | _ => []

/-- `needsCallback` is what decides whether the callback is to be called. -/
theorem pendingCall_calling (d : Dequeued C) :
    (LoggingPc.calling d.msg d.callback d.needsCallback).pendingCall = d.call := by
  rw [Dequeued.call,Dequeued.needsCallback]
  cases d.callback with
  | none => rfl
  | some cb =>
    by_cases hlevel : d.level.value ≤ d.msg.level.value
    · simp [hlevel,LoggingPc.pendingCall]
    · simp [hlevel,LoggingPc.pendingCall]

def State.waiting (s : State T C) : List (T × LogMessage) := s.pushed.drop s.dequeued.length

@[simp] def OwnerPc.stopMade : OwnerPc → Bool
  | .notifying | .joining | .destroyed => true
  | _ => false

structure Delivery (s : State T C) : Prop where
  order : s.pushed.map Prod.snd = s.dequeued.map Dequeued.msg ++ s.queue
  calls : s.called ++ s.logging.pendingCall = s.dequeued.flatMap Dequeued.call
  quiet : s.owner ≠ .alive → ∀ t, s.client t = .idle
  running : s.running = false ↔ s.owner.stopMade = true
  asleep : s.logging = .asleep → ∀ e ∈ s.waiting, s.client e.1 = .notifying
  asleepStop : s.logging = .asleep → s.running = false → s.owner = .notifying
  returned : s.logging = .returned → s.running = false ∧ s.queue = []
  destroyed : s.owner = .destroyed → s.logging = .returned

theorem initial_delivery (workspace : Text) : Delivery (initial T C workspace) := by
  constructor <;> simp [initial,LoggingPc.pendingCall,State.waiting]

theorem Delivery.map_waiting {s : State T C} (hs : Delivery s) : s.waiting.map Prod.snd = s.queue := by
  have hlen : s.dequeued.length = (s.dequeued.map Dequeued.msg).length := by simp
  rw [State.waiting,List.map_drop,hs.order,hlen,List.drop_left]

theorem Delivery.waiting_eq_nil {s : State T C} (hs : Delivery s) (hq : s.queue = []) : s.waiting = [] := by
  have h := hs.map_waiting
  rwa [hq,List.map_eq_nil_iff] at h

theorem Delivery.dequeued_le {s : State T C} (hs : Delivery s) : s.dequeued.length ≤ s.pushed.length := by
  have h := congrArg List.length hs.order
  simp only [List.length_map,List.length_append] at h
  omega

@[simp] theorem State.notify_ne_asleep (s : State T C) : s.notify.logging ≠ .asleep := by
  unfold State.notify
  split <;> simp_all

theorem State.notify_returned (s : State T C) : s.notify.logging = .returned ↔ s.logging = .returned := by
  unfold State.notify
  split <;> simp_all

theorem State.notify_pendingCall (s : State T C) : s.notify.logging.pendingCall = s.logging.pendingCall := by
  unfold State.notify
  split <;> simp_all [LoggingPc.pendingCall]

variable {s u : State T C} {t : T}

theorem Delivery.alive {pc : ClientPc C} (hs : Delivery s) (hpc : s.client t = pc) (hbusy : pc ≠ .idle) :
    s.owner = .alive := by
  by_contra h
  exact hbusy (hpc ▸ hs.quiet h t)

/-- A notification wakes the logging thread if it sleeps, and changes nothing else. -/
theorem Delivery.notify (hs : Delivery s) : Delivery s.notify := by
  have hne (h : s.notify.logging = .asleep) : False := s.notify_ne_asleep h
  constructor
  case order => exact hs.order
  case calls => rw [State.notify_pendingCall]; exact hs.calls
  case quiet => exact hs.quiet
  case running => exact hs.running
  case asleep => intro h; exact (hne h).elim
  case asleepStop => intro h; exact (hne h).elim
  case returned => intro h; exact hs.returned (s.notify_returned.mp h)
  case destroyed => intro h; exact s.notify_returned.mpr (hs.destroyed h)

/-- The message at the front goes from the queue to the logging thread. -/
theorem Delivery.take {msg : LogMessage} {rest : List LogMessage} (hs : Delivery s)
    (hpc : s.logging = .testing ∨ s.logging = .woken) (hq : s.queue = msg :: rest) : Delivery (takeFront s msg rest) := by
  have hpending : s.logging.pendingCall = [] := by rcases hpc with h | h <;> rw [h] <;> rfl
  have hcalls := hs.calls
  rw [hpending,List.append_nil] at hcalls
  constructor
  case order => simp only [takeFront,hs.order,hq,List.map_append,List.map_cons,List.map_nil,List.append_assoc,List.cons_append,
    List.nil_append]
  case calls =>
    simp only [takeFront,List.flatMap_append,hcalls,List.flatMap_cons,List.flatMap_nil,List.append_nil]
    exact congrArg _ (pendingCall_calling ⟨msg,s.callback,s.level⟩)
  case quiet => exact hs.quiet
  case running => exact hs.running
  case asleep => intro h; cases h
  case asleepStop => intro h; cases h
  case returned => intro h; cases h
  case destroyed =>
    intro h
    have hreturned := hs.destroyed h
    rcases hpc with hpc | hpc <;> rw [hpc] at hreturned <;> cases hreturned

theorem Delivery.goOn {pc : LoggingPc C} {called : List (C × LogMessage)} (hs : Delivery s)
    (hcalls : called ++ pc.pendingCall = s.called ++ s.logging.pendingCall) (hawake : pc ≠ .asleep)
    (hloop : pc ≠ .returned) (hold : s.logging ≠ .returned) : Delivery { s with called := called, logging := pc } where
  order := hs.order
  calls := hcalls.trans hs.calls
  quiet := hs.quiet
  running := hs.running
  asleep h := absurd h hawake
  asleepStop h := absurd h hawake
  returned h := absurd h hloop
  destroyed h := absurd (hs.destroyed h) hold

variable [DecidableEq T] {a : Action T C}

theorem Delivery.client {pc : ClientPc C} (hs : Delivery s) (hclient : u.client = Function.update s.client t pc)
    (hpc : s.client t ≠ .notifying) (halive : s.owner = .alive) (hqueue : u.queue = s.queue)
    (hrunning : u.running = s.running) (hlogging : u.logging = s.logging) (howner : u.owner = s.owner)
    (hpushed : u.pushed = s.pushed) (hdequeued : u.dequeued = s.dequeued) (hcalled : u.called = s.called) :
    Delivery u where
  order := by rw [hpushed,hdequeued,hqueue]; exact hs.order
  calls := by rw [hcalled,hlogging,hdequeued]; exact hs.calls
  quiet h := absurd (howner.trans halive) h
  running := by rw [hrunning,howner]; exact hs.running
  asleep h e he := by
    rw [State.waiting,hpushed,hdequeued] at he
    have hnotify := hs.asleep (hlogging ▸ h) e he
    have hne : e.1 ≠ t := fun heq => hpc (heq ▸ hnotify)
    rw [hclient,Function.update_of_ne hne,hnotify]
  asleepStop := by rw [hlogging,hrunning,howner]; exact hs.asleepStop
  returned := by rw [hlogging,hrunning,hqueue]; exact hs.returned
  destroyed := by rw [howner,hlogging]; exact hs.destroyed

/-- A push adds its message to the queue and its thread to those that will notify. -/
theorem Delivery.push {msg : LogMessage} (hs : Delivery s) (hpc : s.client t = .pushing msg) :
    Delivery { s.setClient t .notifying with queue := s.queue ++ [msg], pushed := s.pushed ++ [(t,msg)] } := by
  have halive : s.owner = .alive := hs.alive hpc (by simp)
  have hrun : s.running = true := by
    have h := hs.running
    rw [halive] at h
    simpa using h
  have hwaiting : (s.pushed ++ [(t,msg)]).drop s.dequeued.length = s.waiting ++ [(t,msg)] :=
    List.drop_append_of_le_length hs.dequeued_le
  constructor
  case order => simp only [State.setClient,List.map_append,hs.order,List.map_cons,List.map_nil,List.append_assoc]
  case calls => exact hs.calls
  case quiet => intro h; exact absurd halive h
  case running => exact hs.running
  case asleep =>
    intro h e he
    replace he : e ∈ s.waiting ++ [(t,msg)] := hwaiting ▸ he
    by_cases heq : e.1 = t
    · rw [heq]
      exact Function.update_self ..
    · have hold : e ∈ s.waiting := (List.mem_append.mp he).resolve_right fun hnew => heq (by simp_all)
      exact (Function.update_of_ne heq ..).trans (hs.asleep h e hold)
  case asleepStop => exact hs.asleepStop
  case returned =>
    intro h
    have hstop := (hs.returned h).1
    rw [hrun] at hstop
    cases hstop
  case destroyed => exact hs.destroyed

theorem Delivery.awake (hs : Delivery s) (hawake : s.logging ≠ .asleep) (halive : s.owner = .alive) :
    Delivery (s.setClient t .idle) := by
  constructor
  case order => exact hs.order
  case calls => exact hs.calls
  case quiet => intro h; exact absurd halive h
  case running => exact hs.running
  case asleep => intro h; exact absurd h hawake
  case asleepStop => exact hs.asleepStop
  case returned => exact hs.returned
  case destroyed => exact hs.destroyed

theorem Delivery.step (hs : Delivery s) (hm : Move s a u) : Delivery u := by
  have hcalls := hs.calls
  cases hm with
  | submit hpc hown | submitFormatted hpc hown | beginLevel hpc hown | beginCallback hpc hown =>
    exact hs.client rfl (by simp [hpc]) hown rfl rfl rfl rfl rfl rfl rfl
  | format hpc | read hpc | setLevel hpc | setCallback hpc =>
    exact hs.client rfl (by simp [hpc]) (hs.alive hpc (by simp)) rfl rfl rfl rfl rfl rfl rfl
  | push hpc => exact hs.push hpc
  | notify hpc => exact hs.notify.awake s.notify_ne_asleep (hs.alive hpc (by simp))
  | exit hpc hq hrun =>
    rw [hpc] at hcalls
    exact { hs with
      calls := hcalls
      asleep := fun h => by cases h
      asleepStop := fun h => by cases h
      returned := fun _ => ⟨hrun,hq⟩
      destroyed := fun _ => rfl }
  | sleep hpc hq hrun =>
    rw [hpc] at hcalls
    exact { hs with
      calls := hcalls
      asleep := by
        intro _ e he
        have hnone : e ∈ [] := hs.waiting_eq_nil hq ▸ he
        cases hnone
      asleepStop := fun _ hstop => by rw [hrun] at hstop; cases hstop
      returned := fun h => by cases h
      destroyed := fun h => by rw [hs.destroyed h] at hpc; cases hpc }
  | recheck hpc hq => exact hs.goOn (by rw [hpc]; rfl) (by simp) (by simp) (by simp [hpc])
  | take hpc hq => exact hs.take hpc hq
  | call hpc => exact hs.goOn (by simp [hpc,LoggingPc.pendingCall]) (by simp) (by simp) (by simp [hpc])
  | @pass msg cb needs hpc hno =>
    have hnone : (LoggingPc.calling msg cb needs).pendingCall = [] := by
      cases needs <;> cases cb <;> simp_all [LoggingPc.pendingCall]
    exact hs.goOn (by rw [hpc,hnone]; rfl) (by simp) (by simp) (by simp [hpc])
  | spurious hpc => exact hs.goOn (by rw [hpc]; rfl) (by simp) (by simp) (by simp [hpc])
  | destroy hown hidle =>
    exact { hs with
      quiet := fun _ => hidle
      running := by have h := hs.running; rw [hown] at h; exact h
      asleepStop := fun h hstop => by rw [hs.asleepStop h hstop] at hown; cases hown
      destroyed := fun h => by cases h }
  | stop hown =>
    exact { hs with
      quiet := fun _ => hs.quiet (by rw [hown]; simp)
      running := by simp
      asleepStop := fun _ _ => rfl
      returned := fun h => ⟨rfl,(hs.returned h).2⟩
      destroyed := fun h => by cases h }
  | ownerNotify hown =>
    exact { hs.notify with
      quiet := fun _ => hs.quiet (by rw [hown]; simp)
      running := by have h := hs.running; rw [hown] at h; exact h
      asleepStop := fun h => (s.notify_ne_asleep h).elim
      destroyed := fun h => by cases h }
  | join hown hpc =>
    exact { hs with
      quiet := fun _ => hs.quiet (by rw [hown]; simp)
      running := by have h := hs.running; rw [hown] at h; exact h
      asleepStop := fun h => by rw [hpc] at h; cases h
      destroyed := fun _ => hpc }

theorem Reachable.delivery [Fintype T] (h : Reachable s) : Delivery s := by
  obtain ⟨workspace,h⟩ := h
  exact h.invariant (initial_delivery workspace) fun _ _ _ _ hu hv => hu.step (.of_step hv)

/-- The queue holds the messages of the waiting pushes. Where the logging thread
sleeps, each thread whose message waits is about to notify it, and so is the
destructor once `running` is false. When the destructor has joined it, everything
pushed has been dequeued once and in order, and passed on as the callback and the
level in force at its dequeue asked. -/
theorem submitted_messages_logged [Fintype T] (h : Reachable s) :
    s.waiting.map Prod.snd = s.queue ∧
    (s.logging = .asleep →
      (∀ e ∈ s.waiting, s.client e.1 = .notifying) ∧ (s.running = false → s.owner = .notifying)) ∧
    (s.owner = .destroyed →
      s.dequeued.map Dequeued.msg = s.pushed.map Prod.snd ∧ s.called = s.dequeued.flatMap Dequeued.call) := by
  have hs := h.delivery
  refine ⟨hs.map_waiting,fun hasleep => ⟨hs.asleep hasleep,hs.asleepStop hasleep⟩,?_⟩
  intro hgone
  have hreturned := hs.destroyed hgone
  have horder := hs.order
  have hcalls := hs.calls
  rw [(hs.returned hreturned).2,List.append_nil] at horder
  rw [hreturned] at hcalls
  exact ⟨horder.symm,by simpa [LoggingPc.pendingCall] using hcalls⟩

/-- One thread sets a callback and submits a message while the logging thread
sleeps; the logger is then destroyed. -/
def submitOne : List (Action Unit Unit) :=
  [.logging,.setLoggingCallback () (some ()),.client (),.submitMessage () ⟨.critical,[],[104]⟩,.client (),
    .spurious,.logging,.client (),.logging,.destroy,.owner,.owner,.logging,.owner]

theorem submitted_messages_logged_submitOne : ∃ s : State Unit Unit, Reachable s ∧ s.owner = .destroyed ∧
    s.called = [((),⟨.critical,[],[104]⟩)] ∧ s.dequeued.map Dequeued.msg = s.pushed.map Prod.snd := by
  have hrun : (run Logger.step (initial Unit Unit []) submitOne).isSome := rfl
  have hreach : Reachable _ := ⟨[],Reaches.of_run (fun _ _ => trivial) (Option.some_get hrun).symm⟩
  exact ⟨_,hreach,rfl,rfl,((submitted_messages_logged hreach).2.2 rfl).1⟩

end Logger
end AudioOutput
