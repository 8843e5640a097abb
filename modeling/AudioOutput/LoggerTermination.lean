import AudioOutput.LoggerDelivery
import AudioOutput.LoggerTexts

/-!
# The logger comes to rest

While no call is begun, the calls under way end, the logging thread goes through its
queue, and a destructor that has been called returns. The condition variable may wake the
logging thread for nothing as often as it likes.
-/

namespace AudioOutput
namespace Logger

open Transition

universe u
variable {T C : Type u}

/-- A message pushed costs three more steps. -/
def ClientPc.cost : ClientPc C → ℕ
  | .idle => 0
  | .notifying | .settingLevel _ | .settingCallback _ => 1
  | .pushing _ => 5
  | .reading _ _ _ => 6
  | .formatting _ _ _ => 7

/-- Once `running` is false there is no way back to sleep. -/
def LoggingPc.cost (running : Bool) : LoggingPc C → ℕ
  | .asleep => if running then 1 else 3
  | .woken => if running then 1 else 2
  | .testing => 1
  | .calling _ _ _ => 2
  | .returned => 0

def OwnerPc.cost : OwnerPc → ℕ
  | .stopping => 5
  | .notifying => 2
  | .joining => 1
  | .alive | .destroyed => 0

def remaining [Fintype T] (s : State T C) : ℕ :=
  (∑ t, (s.client t).cost)+3*s.queue.length+s.logging.cost s.running+s.owner.cost

theorem State.notify_cost (s : State T C) : s.notify.logging.cost s.running ≤ s.logging.cost s.running := by
  unfold State.notify
  cases s.logging <;> cases s.running <;> simp [LoggingPc.cost]

theorem LoggingPc.cost_stop (pc : LoggingPc C) (running : Bool) : pc.cost false ≤ pc.cost running+2 := by
  cases pc <;> cases running <;> simp [LoggingPc.cost]

/-- The logging thread goes to sleep, wakes up and finds nothing to do. -/
inductive Rests (s : State T C) : Action T C → State T C → Prop
  | sleep (hpc : s.logging = .testing) (hq : s.queue = []) (hrun : s.running = true) :
      Rests s .logging { s with logging := .asleep }
  | recheck (hpc : s.logging = .woken) (hq : s.queue = []) (hrun : s.running = true) :
      Rests s .logging { s with logging := .testing }
  | wake (hpc : s.logging = .asleep) (hrun : s.running = true) : Rests s .spurious { s with logging := .woken }

def Scheduled : Action T C → Prop
  | .client _ | .logging | .owner => True
  | _ => False

def Unasked : Action T C → Prop
  | .spurious => True
  | a => Scheduled a

def Helpful (s : State T C) : Action T C → Prop
  | .client t => s.client t ≠ .idle
  | .owner => s.owner = .stopping ∨ s.owner = .notifying ∨ s.owner = .joining ∧ s.logging = .returned
  | .logging =>
    match s.logging with
    | .testing | .woken => s.queue ≠ [] ∨ s.running = false
    | .calling _ _ _ => True
    | _ => False
  | _ => False

variable [Fintype T] [DecidableEq T] {s u : State T C} {a : Action T C} {t : T}

theorem client_lt {pc : ClientPc C} (hclient : u.client = Function.update s.client t pc) (howner : u.owner = s.owner)
    (hlogging : u.logging.cost u.running ≤ s.logging.cost s.running)
    (hlt : pc.cost+3*u.queue.length < (s.client t).cost+3*s.queue.length) : remaining u < remaining s := by
  have hsum := sum_update ClientPc.cost s.client t pc
  rw [← hclient] at hsum
  rw [remaining,remaining,howner]
  omega

omit [DecidableEq T] in
theorem others_lt (hclient : u.client = s.client)
    (hlt : 3*u.queue.length+u.logging.cost u.running+u.owner.cost < 3*s.queue.length+s.logging.cost s.running+s.owner.cost) :
    remaining u < remaining s := by
  rw [remaining,remaining,hclient]
  omega

theorem Move.lowers (h : Move s a u) (ha : Unasked a) : Rests s a u ∨ remaining u < remaining s := by
  cases h with
  | submit | submitFormatted | beginLevel | beginCallback | destroy => exact ha.elim
  | format hpc | read hpc | setLevel hpc | setCallback hpc =>
    exact Or.inr (client_lt rfl rfl le_rfl (by simp [hpc,ClientPc.cost,State.setClient]))
  | push hpc =>
    refine Or.inr (client_lt rfl rfl le_rfl ?_)
    simp only [hpc,ClientPc.cost,List.length_append,List.length_singleton]
    omega
  | notify hpc => exact Or.inr (client_lt rfl rfl s.notify_cost (by simp [hpc,ClientPc.cost,State.notify,State.setClient]))
  | exit hpc hq hrun => exact Or.inr (others_lt rfl (by simp [hpc,LoggingPc.cost]))
  | sleep hpc hq hrun => exact Or.inl (.sleep hpc hq hrun)
  | recheck hpc hq =>
    by_cases hrun : s.running = true
    · exact Or.inl (.recheck hpc hq hrun)
    · exact Or.inr (others_lt rfl (by simp [hpc,hrun,LoggingPc.cost]))
  | take hpc hq =>
    refine Or.inr (others_lt rfl ?_)
    have hlogging : 1 ≤ s.logging.cost s.running := by rcases hpc with hpc | hpc <;> cases hrun : s.running <;> simp [hpc,LoggingPc.cost]
    simp only [takeFront,hq,LoggingPc.cost,List.length_cons]
    omega
  | call hpc => exact Or.inr (others_lt rfl (by simp [hpc,LoggingPc.cost]))
  | pass hpc => exact Or.inr (others_lt rfl (by simp [hpc,LoggingPc.cost]))
  | spurious hpc =>
    by_cases hrun : s.running = true
    · exact Or.inl (.wake hpc hrun)
    · exact Or.inr (others_lt rfl (by simp [hpc,hrun,LoggingPc.cost]))
  | stop hown =>
    have hle := s.logging.cost_stop s.running
    exact Or.inr (others_lt rfl (by simp only [hown,OwnerPc.cost]; omega))
  | ownerNotify hown =>
    have hle := s.notify_cost
    refine Or.inr (others_lt rfl ?_)
    simp only [hown,OwnerPc.cost,State.notify] at hle ⊢
    omega
  | join hown => exact Or.inr (others_lt rfl (by simp [hown,OwnerPc.cost]))

omit [DecidableEq T] in
theorem Rests.keeps (h : Rests s a u) : remaining u = remaining s ∧ ∀ b, Helpful s b → Helpful u b := by
  have hsame : u.client = s.client ∧ u.queue = s.queue ∧ u.running = s.running ∧ u.owner = s.owner ∧ s.running = true ∧
      s.logging ≠ .returned ∧ s.logging.cost s.running = u.logging.cost u.running ∧ ¬ Helpful s .logging := by
    cases h <;> simp_all [LoggingPc.cost,Helpful]
  obtain ⟨hclient,hqueue,hrunning,howner,hrun,hlive,hcost,hidle⟩ := hsame
  refine ⟨by rw [remaining,remaining,hclient,hqueue,howner,hcost],fun b hb => ?_⟩
  cases b with
  | client t =>
    simp only [Helpful] at hb ⊢
    rwa [hclient]
  | owner =>
    simp only [Helpful] at hb ⊢
    rw [howner]
    exact hb.imp_right fun h => h.imp_right fun hjoin => absurd hjoin.2 hlive
  | logging => exact absurd hb hidle
  | _ => exact hb.elim

/-- No call is under way, nothing is in the queue or about to be logged, and a destructor
that has been called has returned. -/
structure AtRest (s : State T C) : Prop where
  clients : ∀ t, s.client t = .idle
  queue : s.queue = []
  pending : s.logging.pendingCall = []
  owner : s.owner = .alive ∨ s.owner = .destroyed

omit [Fintype T] [DecidableEq T] in
theorem Delivery.idle (hs : Delivery s) (hclients : ∀ t, s.client t = .idle) (hlogging : ¬ Helpful s .logging) :
    s.queue = [] ∧ s.logging.pendingCall = [] := by
  cases hpc : s.logging with
  | testing | woken =>
    simp only [Helpful,hpc,not_or,not_not] at hlogging
    exact ⟨hlogging.1,rfl⟩
  | calling msg cb needs => simp [Helpful,hpc] at hlogging
  | returned => exact ⟨(hs.returned hpc).2,rfl⟩
  | asleep =>
    -- whoever has pushed what is in the queue would still have to notify
    refine ⟨?_,rfl⟩
    rw [← hs.map_waiting,List.map_eq_nil_iff,List.eq_nil_iff_forall_not_mem]
    intro e he
    have hnotify := hs.asleep hpc e he
    rw [hclients] at hnotify
    cases hnotify

omit [Fintype T] [DecidableEq T] in
theorem Delivery.progress (hs : Delivery s) (hnot : ¬ AtRest s) : ∃ a, Helpful s a := by
  by_contra hnone
  push Not at hnone
  have hclients (t : T) : s.client t = .idle := not_not.mp (hnone (.client t))
  obtain ⟨hqueue,hpending⟩ := hs.idle hclients (hnone .logging)
  have howner := hnone .owner
  simp only [Helpful,not_or,not_and] at howner
  refine hnot ⟨hclients,hqueue,hpending,?_⟩
  cases hown : s.owner with
  | alive => exact Or.inl rfl
  | destroyed => exact Or.inr rfl
  | stopping => exact absurd hown howner.1
  | notifying => exact absurd hown howner.2.1
  | joining =>
    -- the logging thread sees that it is to stop
    have hrun : s.running = false := hs.running.mpr (by rw [hown]; rfl)
    have hlogging := hnone .logging
    cases hpc : s.logging with
    | returned => exact absurd hpc (howner.2.2 hown)
    | asleep =>
      rw [hs.asleepStop hpc hrun] at hown
      cases hown
    | testing | woken | calling => simp [Helpful,hpc,hrun] at hlogging

theorem Helpful.enabled (h : Helpful s a) : Scheduled a ∧ (step s a).isSome := by
  cases a with
  | client t =>
    refine ⟨trivial,?_⟩
    simp only [step,clientThread]
    split
    case h_1 hpc => exact absurd hpc h
    all_goals rfl
  | logging =>
    refine ⟨trivial,?_⟩
    simp only [Helpful] at h
    simp only [step,loggingThread]
    split at h
    case h_1 hpc =>
      rw [hpc]
      cases s.queue <;> cases s.running <;> rfl
    case h_2 hpc =>
      rw [hpc]
      cases s.queue <;> rfl
    case h_3 msg cb needs hpc =>
      rw [hpc]
      cases cb <;> cases needs <;> rfl
    case h_4 => exact h.elim
  | owner =>
    refine ⟨trivial,?_⟩
    simp only [step,ownerThread]
    rcases h with hown | hown | ⟨hown,hpc⟩
    · rw [hown]; rfl
    · rw [hown]; rfl
    · rw [hown,hpc]; rfl
  | _ => exact h.elim

omit [Fintype T] [DecidableEq T] in
theorem Helpful.not_rests (h : Helpful s a) : ¬ Rests s a u := by
  rintro (⟨hpc,hq,hrun⟩ | ⟨hpc,hq,hrun⟩ | ⟨hpc,hrun⟩)
  · simp [Helpful,hpc,hq,hrun] at h
  · simp [Helpful,hpc,hq,hrun] at h
  · exact h

theorem Delivery.atRest (e : Execution (Logger.step (T := T) (C := C)) Unasked) (hs : Delivery (e.state 0))
    (hfair : e.FairTo Scheduled) : ∃ m, AtRest (e.state m) := by
  refine e.eventually_of_helpful hfair Helpful remaining hs (fun _ _ _ _ hs hstep => hs.step (.of_step hstep))
    (fun s a u ha _ _ hstep => ?_) (fun s a _ _ hhelps => ?_) fun s hs hnot => hs.progress hnot
  · rcases (Move.of_step hstep).lowers ha with hrest | hlow
    · exact Or.inr ⟨hrest.keeps.1.le,hrest.keeps.2⟩
    · exact Or.inl hlow
  · obtain ⟨hscheduled,henabled⟩ := hhelps.enabled
    obtain ⟨u,hu⟩ := Option.isSome_iff_exists.mp henabled
    have hunasked : Unasked a := by cases a <;> trivial
    exact ⟨hscheduled,u,hu,((Move.of_step hu).lowers hunasked).resolve_left hhelps.not_rests⟩

/-- Every call that submits has pushed its message or is about to. -/
def Submits (s : State T C) : Prop :=
  ∀ t, (ofThread t s.asked).length = (ofThread t s.pushed).length+(s.client t).inHand.length

omit [Fintype T] in
theorem Submits.setClient {pc : ClientPc C} (hs : Submits s) (hclient : u.client = Function.update s.client t pc)
    (hlength : (ofThread t u.asked).length+(ofThread t s.pushed).length+(s.client t).inHand.length =
      (ofThread t s.asked).length+(ofThread t u.pushed).length+pc.inHand.length)
    (hasked : ∀ v ≠ t, ofThread v u.asked = ofThread v s.asked) (hpushed : ∀ v ≠ t, ofThread v u.pushed = ofThread v s.pushed) :
    Submits u := by
  intro v
  have hv := hs v
  by_cases hvt : v = t
  · subst hvt
    rw [hclient,Function.update_self]
    omega
  · rwa [hclient,Function.update_of_ne hvt,hasked v hvt,hpushed v hvt]

omit [Fintype T] in
theorem Submits.step (hs : Submits s) (hm : Move s a u) : Submits u := by
  cases hm with
  | submit hpc | submitFormatted hpc =>
    refine hs.setClient rfl ?_ (fun v hv => ofThread_concat_ne hv _ _) fun _ _ => rfl
    simp only [ofThread_concat_self,hpc,ClientPc.inHand,State.setClient,List.length_append,List.length_singleton,List.length_nil]
    omega
  | push hpc =>
    refine hs.setClient rfl ?_ (fun _ _ => rfl) fun v hv => ofThread_concat_ne hv _ _
    simp only [ofThread_concat_self,hpc,ClientPc.inHand,State.setClient,List.length_append,List.length_singleton,List.length_nil]
    omega
  | beginLevel hpc | beginCallback hpc | format hpc | read hpc | setLevel hpc | setCallback hpc | notify hpc =>
    exact hs.setClient rfl (by simp [hpc,ClientPc.inHand,State.setClient,State.notify]) (fun _ _ => rfl) fun _ _ => rfl
  | _ => exact hs

/-- While no call is begun and all threads get their turns, the calls under way end, every
message submitted is taken from the queue once, in order, and passed on as the callback and
the level asked for, and a destructor that has been called returns. -/
theorem logger_comes_to_rest (h : Reachable s) : ∀ e : Execution (Logger.step (T := T) (C := C)) Unasked, e.state 0 = s →
    e.FairTo Scheduled → ∃ m, (∀ t, (e.state m).client t = .idle) ∧
      ((e.state m).owner = .destroyed ∨ (e.state m).owner = .alive ∧ s.owner = .alive) ∧
      (∀ t, (ofThread t (e.state m).pushed).length = (ofThread t s.asked).length) ∧
      (e.state m).dequeued.map Dequeued.msg = (e.state m).pushed.map Prod.snd ∧
      (e.state m).called = (e.state m).dequeued.flatMap Dequeued.call := by
  rintro e rfl hfair
  have hs := h.delivery
  have hsubmits : Submits (e.state 0) := by
    obtain ⟨workspace,h⟩ := h
    exact h.invariant (fun t => rfl) fun _ _ _ _ hu hv => hu.step (.of_step hv)
  obtain ⟨m,hm⟩ := hs.atRest e hfair
  have hlater : Delivery (e.state m) ∧ Submits (e.state m) ∧ (e.state m).asked = (e.state 0).asked ∧
      ((e.state m).owner = .alive → (e.state 0).owner = .alive) := by
    refine (e.reaches m).invariant (I := fun s => Delivery s ∧ Submits s ∧ s.asked = (e.state 0).asked ∧
      (s.owner = .alive → (e.state 0).owner = .alive)) ⟨hs,hsubmits,rfl,id⟩ ?_
    rintro s a u ha ⟨hd,hsub,hasked,halive⟩ hstep
    have hmove := Move.of_step hstep
    refine ⟨hd.step hmove,hsub.step hmove,?_⟩
    cases hmove with
    | submit | submitFormatted | beginLevel | beginCallback | destroy => exact ha.elim
    | stop | ownerNotify | join => exact ⟨hasked,fun h => OwnerPc.noConfusion h⟩
    | _ => exact ⟨hasked,halive⟩
  obtain ⟨hd,hsub,hasked,halive⟩ := hlater
  have horder := hd.order
  have hcalls := hd.calls
  rw [hm.queue,List.append_nil] at horder
  rw [hm.pending,List.append_nil] at hcalls
  refine ⟨m,hm.clients,?_,fun t => ?_,horder.symm,hcalls⟩
  · rcases hm.owner with hown | hown
    · exact Or.inr ⟨hown,halive hown⟩
    · exact Or.inl hown
  · have ht := hsub t
    rw [hm.clients,hasked] at ht
    exact ht.symm

/-- A message has been submitted and notified of, but not logged yet, when the logger is
destroyed. -/
def destroyBehindMessage : List (Action Unit Unit) :=
  [.logging,.setLoggingCallback () (some ()),.client (),.submitMessage () ⟨.critical,[],[104]⟩,.client (),.client (),.destroy]

theorem logger_comes_to_rest_destroyBehindMessage : ∃ s : State Unit Unit, s.queue = [⟨.critical,[],[104]⟩] ∧
    ∀ e : Execution (Logger.step (T := Unit) (C := Unit)) Unasked, e.state 0 = s → e.FairTo Scheduled →
      ∃ m, (e.state m).owner = .destroyed := by
  have hrun : (run Logger.step (initial Unit Unit []) destroyBehindMessage).isSome := rfl
  have hreach : Reachable _ := ⟨[],Reaches.of_run (fun _ _ => trivial) (Option.some_get hrun).symm⟩
  refine ⟨(run Logger.step (initial Unit Unit []) destroyBehindMessage).get hrun,rfl,fun e he hfair => ?_⟩
  obtain ⟨m,-,howner,-⟩ := logger_comes_to_rest hreach e he hfair
  exact ⟨m,howner.resolve_right fun h => OwnerPc.noConfusion h.2⟩

end Logger
end AudioOutput
