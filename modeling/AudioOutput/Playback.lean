import AudioOutput.WorkerStream
import AudioOutput.WriteCalls

/-!
# A device and its worker

Any output device together with the mixahead worker that its `init` makes for the format
it has been given. One thread of the device calls `awaitInitialMix` and then `write`, the
application's thread is the owner of the worker, and their steps interleave with those of
the worker thread.
-/

namespace AudioOutput

open Transition

universe u

/-- A device as far as its worker is concerned: what `init` is called for, when the calls of `init` and
`awaitInitialMix` return, what `write` is called with and how its answer is taken over; whether
there is a thread, whether the members are being destroyed, and what has been taken over. -/
structure Player (α : Type u) where
  State : Type u
  Action : Type u
  initial : State
  step : State → Action → Option State
  initializing : State → Option (ℕ × ℕ)
  leavesInit : State → Action → Bool
  leavesAwait : State → Action → Bool
  asks : State → Option (ℕ × List α)
  answers : ℕ → List α → Action
  isAnswer : Action → Bool
  started : State → Bool
  gone : State → Bool
  channels : State → ℕ
  heard : State → List α

namespace Player

variable {α : Type u} (p : Player α)

def Reachable (s : p.State) : Prop := Reaches p.step (fun _ => True) p.initial s

structure Unheard (s t : p.State) : Prop where
  heard : p.heard t = p.heard s
  started : p.started s = true → p.started t = true ∧ p.channels t = p.channels s
  asks : ∀ x, p.asks s = some x → p.asks t = some x
  gone : p.gone s = true → p.gone t = true

structure Answered (s t : p.State) (samples : List α) : Prop where
  heard : p.heard t = p.heard s ++ samples
  started : p.started t = true
  channels : p.channels t = p.channels s
  gone : p.gone t = p.gone s

/-- How a device keeps to the order of `init`, its thread and its destruction. -/
structure Sound : Prop where
  unstarted : p.started p.initial = false
  silent : p.heard p.initial = []
  own : ∀ {s a t}, p.Reachable s → p.step s a = some t → p.isAnswer a = false → p.Unheard s t
  starts : ∀ {s a t}, p.Reachable s → p.step s a = some t → p.started s = false → p.started t = true →
    p.leavesInit s a = true ∧ (p.initializing s).map Prod.fst = some (p.channels t)
  asking : ∀ {s count destination}, p.Reachable s → p.asks s = some (count,destination) →
    p.started s = true ∧ p.gone s = false ∧ count*p.channels s ≤ destination.length
  answered : ∀ {s n samples t}, p.step s (p.answers n samples) = some t → p.Answered s t samples
  accepts : ∀ {s count destination n samples}, p.asks s = some (count,destination) → n ≤ count →
    samples.length = n*p.channels s → (p.step s (p.answers n samples)).isSome

end Player

namespace Playback

structure Config (α : Type u) where
  player : Player α
  worker : OutputWorkerThread.Config α
  outputSr : ℕ

variable {α : Type u}

/-- `answered` counts the calls of `write` whose frames the device has got. -/
structure State (cfg : Config α) where
  device : cfg.player.State
  worker : OutputWorkerThread.State cfg.worker
  answered : ℕ

/-- `call` and `answer` are the call of `write` by the device and its return. -/
inductive Action (cfg : Config α)
  | device (a : cfg.player.Action)
  | worker (a : OutputWorkerThread.Action α)
  | call
  | answer

variable [Zero α] {cfg : Config α}

def initial (cfg : Config α) : State cfg := ⟨cfg.player.initial,OutputWorkerThread.initial cfg.worker,0⟩

def Config.format (cfg : Config α) : ℕ × ℕ := (cfg.worker.destinationChannels,cfg.outputSr)

/-- Steps of the device's threads that the worker has a say in: `init` comes back with a
worker that is running, and `awaitInitialMix` when the flag is up. -/
def State.letsDevice (s : State cfg) (a : cfg.player.Action) : Bool :=
  (!cfg.player.leavesInit s.device a ||
    s.worker.owner == .running && cfg.player.initializing s.device == some cfg.format) &&
  (!cfg.player.leavesAwait s.device a || s.worker.finishedInitialMix != 0) && !cfg.player.isAnswer a

/-- The worker is made by `init` and destroyed with the members of the device. -/
def State.letsWorker (s : State cfg) : OutputWorkerThread.Action α → Bool
  | .owner => !s.worker.owner.constructing || (cfg.player.initializing s.device).isSome
  | .destroy => cfg.player.gone s.device
  | .write _ _ => false
  | _ => true

def stored (cfg : Config α) (r : OutputWorkerThread.WriteReturn α) : List α :=
  r.destination.take (cfg.worker.destinationChannels*r.written)

def call (s : State cfg) : Option (State cfg) :=
  match cfg.player.asks s.device with
  | some (count,destination) =>
    if s.worker.returns.length = s.answered then
      (OutputWorkerThread.step s.worker (.write count destination)).map fun w => { s with worker := w }
    else none
  | none => none

def answer (s : State cfg) : Option (State cfg) :=
  match s.worker.returns[s.answered]? with
  | some r => (cfg.player.step s.device (cfg.player.answers r.written (stored cfg r))).map fun d =>
      { s with device := d, answered := s.answered+1 }
  | none => none

def step (s : State cfg) : Action cfg → Option (State cfg)
  | .device a => if s.letsDevice a then (cfg.player.step s.device a).map fun d => { s with device := d } else none
  | .worker a => if s.letsWorker a then (OutputWorkerThread.step s.worker a).map fun w => { s with worker := w } else none
  | .call => call s
  | .answer => answer s

def Reachable (s : State cfg) : Prop := Reaches step (fun _ => True) (initial cfg) s

inductive Move (s : State cfg) : Action cfg → State cfg → Prop
  | device {a : cfg.player.Action} {d : cfg.player.State} (hlets : s.letsDevice a = true)
      (hstep : cfg.player.step s.device a = some d) : Move s (.device a) { s with device := d }
  | worker {a : OutputWorkerThread.Action α} {w : OutputWorkerThread.State cfg.worker} (hlets : s.letsWorker a = true)
      (hstep : OutputWorkerThread.step s.worker a = some w) : Move s (.worker a) { s with worker := w }
  | call {count : ℕ} {destination : List α} {w : OutputWorkerThread.State cfg.worker}
      (hasks : cfg.player.asks s.device = some (count,destination)) (hanswered : s.worker.returns.length = s.answered)
      (hstep : OutputWorkerThread.step s.worker (.write count destination) = some w) :
      Move s .call { s with worker := w }
  | answer {r : OutputWorkerThread.WriteReturn α} {d : cfg.player.State} (hreturn : s.worker.returns[s.answered]? = some r)
      (hstep : cfg.player.step s.device (cfg.player.answers r.written (stored cfg r)) = some d) :
      Move s .answer { s with device := d, answered := s.answered+1 }

theorem Move.of_step {s t : State cfg} {a : Action cfg} (h : step s a = some t) : Move s a t := by
  cases a with
  | device a =>
    simp only [step] at h
    split at h
    case isTrue hlets =>
      obtain ⟨d,hd,rfl⟩ := Option.map_eq_some_iff.mp h
      exact .device hlets hd
    case isFalse => cases h
  | worker a =>
    simp only [step] at h
    split at h
    case isTrue hlets =>
      obtain ⟨w,hw,rfl⟩ := Option.map_eq_some_iff.mp h
      exact .worker hlets hw
    case isFalse => cases h
  | call =>
    simp only [step,Playback.call] at h
    split at h
    case h_1 count destination hasks =>
      split at h
      case isTrue hanswered =>
        obtain ⟨w,hw,rfl⟩ := Option.map_eq_some_iff.mp h
        exact .call hasks hanswered hw
      case isFalse => cases h
    case h_2 => cases h
  | answer =>
    simp only [step,Playback.answer] at h
    split at h
    case h_1 r hreturn =>
      obtain ⟨d,hd,rfl⟩ := Option.map_eq_some_iff.mp h
      exact .answer hreturn hd
    case h_2 => cases h

theorem Reachable.device {s : State cfg} (h : Reachable s) : cfg.player.Reachable s.device := by
  refine Reaches.project State.device (fun s a t _ hstep => ?_) h
  cases Move.of_step hstep with
  | device _ hd => exact Or.inr ⟨_,trivial,hd⟩
  | worker => exact Or.inl rfl
  | call => exact Or.inl rfl
  | answer _ hd => exact Or.inr ⟨_,trivial,hd⟩

theorem Reachable.worker {s : State cfg} (h : Reachable s) : OutputWorkerThread.Reachable s.worker := by
  refine Reaches.project State.worker (fun s a t _ hstep => ?_) h
  cases Move.of_step hstep with
  | device => exact Or.inl rfl
  | worker _ hw => exact Or.inr ⟨_,trivial,hw⟩
  | call _ _ hw => exact Or.inr ⟨_,trivial,hw⟩
  | answer => exact Or.inl rfl

/-- How the device and its worker belong together. A call of `write` is under way, or
has returned and not been heard of, only while the device waits for it. -/
structure Joined (s : State cfg) : Prop where
  before : cfg.player.started s.device = false →
    s.worker.io = .idle ∧ s.worker.returns = [] ∧ s.answered = 0 ∧ cfg.player.heard s.device = []
  channels : cfg.player.started s.device = true → cfg.player.channels s.device = cfg.worker.destinationChannels
  owner : cfg.player.started s.device = true → cfg.player.gone s.device = false → s.worker.owner = .running
  busy : s.worker.io ≠ .idle → s.worker.returns.length = s.answered ∧ ∃ count destination,
    cfg.player.asks s.device = some (count,destination) ∧
      s.worker.io.Serves cfg.worker.destinationChannels count destination
  returned : s.worker.returns.length = s.answered ∨ ∃ count destination r, s.worker.returns.length = s.answered+1 ∧
    s.worker.returns[s.answered]? = some r ∧ cfg.player.asks s.device = some (count,destination) ∧ r.written ≤ count
  heard : cfg.player.heard s.device = (s.worker.returns.take s.answered).flatMap (stored cfg)

omit [Zero α] in
theorem initial_joined (hp : cfg.player.Sound) : Joined (initial cfg) where
  before _ := ⟨rfl,rfl,rfl,hp.silent⟩
  channels h := by rw [initial,hp.unstarted] at h; cases h
  owner h := by rw [initial,hp.unstarted] at h; cases h
  busy h := absurd rfl h
  returned := Or.inl rfl
  heard := hp.silent

variable {s : State cfg}

omit [Zero α] in
theorem Joined.answered_le (hs : Joined s) : s.answered ≤ s.worker.returns.length := by
  rcases hs.returned with h | ⟨_,_,_,h,_⟩ <;> omega

theorem Joined.device (hs : Joined s) (hp : cfg.player.Sound) (h : Reachable s) {a : cfg.player.Action}
    {d : cfg.player.State} (hlets : s.letsDevice a = true) (hstep : cfg.player.step s.device a = some d) :
    Joined { s with device := d } := by
  simp only [State.letsDevice,Bool.and_eq_true,Bool.or_eq_true,Bool.not_eq_true',beq_iff_eq] at hlets
  obtain ⟨⟨hinit,-⟩,hown⟩ := hlets
  have hun := hp.own h.device hstep hown
  have hfirst (hbefore : cfg.player.started s.device = false) (hd : cfg.player.started d = true) :
      s.worker.owner = .running ∧ cfg.player.channels d = cfg.worker.destinationChannels := by
    obtain ⟨hleaves,hchannels⟩ := hp.starts h.device hstep hbefore hd
    obtain ⟨hrunning,hformat⟩ := hinit.resolve_left (by simp [hleaves])
    rw [hformat,Option.map_some,Option.some.injEq] at hchannels
    exact ⟨hrunning,hchannels.symm⟩
  exact {
    before := fun hd => by
      have hbefore : cfg.player.started s.device = false := Bool.eq_false_iff.mpr fun hst => by
        rw [(hun.started hst).1] at hd
        cases hd
      obtain ⟨hidle,hreturns,hanswered,hheard⟩ := hs.before hbefore
      exact ⟨hidle,hreturns,hanswered,hun.heard.trans hheard⟩
    channels := fun hd => by
      by_cases hst : cfg.player.started s.device = true
      · exact (hun.started hst).2.trans (hs.channels hst)
      · exact (hfirst (Bool.eq_false_iff.mpr hst) hd).2
    owner := fun hd hgone => by
      by_cases hst : cfg.player.started s.device = true
      · exact hs.owner hst (Bool.eq_false_iff.mpr fun hg => by rw [hun.gone hg] at hgone; cases hgone)
      · exact (hfirst (Bool.eq_false_iff.mpr hst) hd).1
    busy := fun hbusy => by
      obtain ⟨hanswered,count,destination,hasks,hserves⟩ := hs.busy hbusy
      exact ⟨hanswered,count,destination,hun.asks _ hasks,hserves⟩
    returned := hs.returned.imp_right fun ⟨count,destination,r,hlen,hr,hasks,hle⟩ =>
      ⟨count,destination,r,hlen,hr,hun.asks _ hasks,hle⟩
    heard := hun.heard.trans hs.heard }

/-- The owner has nothing to do with a worker that its device still needs. -/
theorem Joined.owner_running (hs : Joined s) {a : OutputWorkerThread.Action α} {w : OutputWorkerThread.State cfg.worker}
    (hlets : s.letsWorker a = true) (hstep : OutputWorkerThread.step s.worker a = some w)
    (hstarted : cfg.player.started s.device = true) (hgone : cfg.player.gone s.device = false) : w.owner = .running := by
  have hrunning := hs.owner hstarted hgone
  have hmove := OutputWorkerThread.step_move hstep
  cases a with
  | destroy => simp [State.letsWorker,hgone] at hlets
  | owner => simp [OutputWorkerThread.step,OutputWorkerThread.ownerThread,hrunning] at hstep
  | write => cases hlets
  | worker =>
    cases hmove with
    | count => simpa using hrunning
    | _ => exact hrunning
  | io => cases hmove <;> exact hrunning

/-- A step of `write` on the device's thread. -/
theorem Joined.io (hs : Joined s) (hp : cfg.player.Sound) (h : Reachable s) {w : OutputWorkerThread.State cfg.worker}
    (hstep : OutputWorkerThread.step s.worker .io = some w) : Joined { s with worker := w } := by
  have hmove := OutputWorkerThread.step_move hstep
  have hbusy : s.worker.io ≠ .idle := fun hidle => by
    simp [OutputWorkerThread.step,OutputWorkerThread.ioThread,hidle] at hstep
  obtain ⟨hanswered,count,destination,hasks,hserves⟩ := hs.busy hbusy
  have hstarted := (hp.asking h.device hasks).1
  have hbefore {q : Prop} (hno : cfg.player.started s.device = false) : q := by
    rw [hstarted] at hno
    cases hno
  by_cases hreturns : w.returns = s.worker.returns
  · have hmore : w.io ≠ .idle := by
      intro hidle
      obtain ⟨v,-,rfl⟩ := hmove.returned_call hbusy (Or.inl hidle)
      simp at hreturns
    have hlen : w.returns.length = s.answered := hreturns ▸ hanswered
    exact {
      before := hbefore
      channels := hs.channels
      owner := hs.owner_running rfl hstep
      busy := fun _ => ⟨hlen,count,destination,hasks,hmove.serves h.worker.ownership h.worker.fidelity hserves⟩
      returned := Or.inl hlen
      heard := by rw [hs.heard,hreturns] }
  · obtain ⟨v,hpc,rfl⟩ := hmove.returned_call hbusy (Or.inr hreturns)
    have hcall := hserves v 0 (by rw [hpc]; rfl)
    have htotal := hcall.total
    exact {
      before := hbefore
      channels := hs.channels
      owner := hs.owner
      busy := fun hidle => absurd rfl hidle
      returned := Or.inr ⟨count,destination,⟨v.requested,v.writtenTotal,v.destination⟩,by simp [hanswered],
        hanswered ▸ List.getElem?_concat_length,hasks,by dsimp only; omega⟩
      heard := by
        rw [hs.heard]
        dsimp only
        rw [List.take_append_of_le_length hs.answered_le] }

theorem Joined.worker (hs : Joined s) (hp : cfg.player.Sound) (h : Reachable s) {a : OutputWorkerThread.Action α}
    {w : OutputWorkerThread.State cfg.worker} (hlets : s.letsWorker a = true)
    (hstep : OutputWorkerThread.step s.worker a = some w) : Joined { s with worker := w } := by
  have hother (ha : OutputWorkerThread.Closing a) : Joined { s with worker := w } := by
    obtain ⟨hio,-,hreturns⟩ := (OutputWorkerThread.step_move hstep).closing_fields ha
    exact {
      before := by simpa only [hio,hreturns] using hs.before
      channels := hs.channels
      owner := hs.owner_running hlets hstep
      busy := by simpa only [hio,hreturns] using hs.busy
      returned := by simpa only [hreturns] using hs.returned
      heard := by simpa only [hreturns] using hs.heard }
  cases a with
  | worker => exact hother trivial
  | owner => exact hother trivial
  | destroy => exact hother trivial
  | io => exact hs.io hp h hstep
  | write => cases hlets

theorem Joined.call (hs : Joined s) (hp : cfg.player.Sound) (h : Reachable s) {count : ℕ} {destination : List α}
    {w : OutputWorkerThread.State cfg.worker} (hasks : cfg.player.asks s.device = some (count,destination))
    (hanswered : s.worker.returns.length = s.answered)
    (hstep : OutputWorkerThread.step s.worker (.write count destination) = some w) : Joined { s with worker := w } := by
  obtain ⟨-,rfl⟩ := OutputWorkerThread.beginWrite_eq hstep
  exact {
    before := fun hno => by
      rw [(hp.asking h.device hasks).1] at hno
      cases hno
    channels := hs.channels
    owner := hs.owner
    busy := fun _ => ⟨hanswered,count,destination,hasks,OutputWorkerThread.serves_start _ _ _⟩
    returned := hs.returned
    heard := hs.heard }

theorem Joined.answer (hs : Joined s) (hp : cfg.player.Sound) (h : Reachable s) {r : OutputWorkerThread.WriteReturn α}
    {d : cfg.player.State} (hreturn : s.worker.returns[s.answered]? = some r)
    (hstep : cfg.player.step s.device (cfg.player.answers r.written (stored cfg r)) = some d) :
    Joined { s with device := d, answered := s.answered+1 } := by
  obtain ⟨hlen,hstarted⟩ : s.worker.returns.length = s.answered+1 ∧ cfg.player.started s.device = true := by
    rcases hs.returned with hnone | ⟨_,_,_,hone,-,hasks,-⟩
    · have hlt := (List.getElem?_eq_some_iff.mp hreturn).1
      omega
    · exact ⟨hone,(hp.asking h.device hasks).1⟩
  have hd := hp.answered hstep
  exact {
    before := fun hno => by
      rw [hd.started] at hno
      cases hno
    channels := fun _ => hd.channels.trans (hs.channels hstarted)
    owner := fun _ hgone => hs.owner hstarted (hd.gone ▸ hgone)
    busy := fun hbusy => by
      have hold := (hs.busy hbusy).1
      omega
    returned := Or.inl hlen
    heard := by
      rw [hd.heard,hs.heard]
      dsimp only
      rw [List.take_add_one,hreturn,Option.toList_some,List.flatMap_append,List.flatMap_singleton] }

theorem Joined.step {t : State cfg} {a : Action cfg} (hs : Joined s) (hp : cfg.player.Sound) (h : Reachable s)
    (hm : Move s a t) : Joined t := by
  cases hm with
  | device hlets hstep => exact hs.device hp h hlets hstep
  | worker hlets hstep => exact hs.worker hp h hlets hstep
  | call hasks hanswered hstep => exact hs.call hp h hasks hanswered hstep
  | answer hreturn hstep => exact hs.answer hp h hreturn hstep

theorem Reachable.joined (h : Reachable s) (hp : cfg.player.Sound) : Joined s := by
  have hboth := Reaches.invariant (I := fun s => Reachable s ∧ Joined s) h ⟨.refl,initial_joined hp⟩
    fun _ _ _ _ ⟨hr,hs⟩ hstep => ⟨Reaches.tail hr trivial hstep,hs.step hp hr (.of_step hstep)⟩
  exact hboth.2

/-- What a device that waits for frames has of its worker: it can call `write`, its call
is under way, or its call has returned. -/
inductive Handover (s : State cfg) (count : ℕ) (destination : List α) : Prop
  | calls (hrunning : s.worker.owner = .running) (hidle : s.worker.io = .idle) (hanswered : s.worker.returns.length = s.answered)
      (henabled : (Playback.step s .call).isSome)
  | waits (hbusy : s.worker.io ≠ .idle) (hserves : s.worker.io.Serves cfg.worker.destinationChannels count destination)
  | answers (hidle : s.worker.io = .idle) (hlen : s.worker.returns.length = s.answered+1)
      (henabled : (Playback.step s .answer).isSome)

theorem Reachable.hands_over (h : Reachable s) (hp : cfg.player.Sound) {count : ℕ} {destination : List α}
    (hasks : cfg.player.asks s.device = some (count,destination)) : Handover s count destination := by
  have hs := h.joined hp
  obtain ⟨hstarted,hgone,hroom⟩ := hp.asking h.device hasks
  rw [hs.channels hstarted] at hroom
  by_cases hidle : s.worker.io = .idle
  · rcases hs.returned with hnone | ⟨count',destination',r,hone,hr,hasks',hle⟩
    · refine .calls (hs.owner hstarted hgone) hidle hnone ?_
      simp [step,Playback.call,hasks,hnone,OutputWorkerThread.step,OutputWorkerThread.beginWrite,hidle,
        hs.owner hstarted hgone,hroom]
    · obtain ⟨rfl,rfl⟩ := Prod.mk.inj (Option.some.inj (hasks'.symm.trans hasks))
      have hmem : r ∈ s.worker.returns := List.mem_of_getElem? hr
      have hlen : (stored cfg r).length = r.written*cfg.player.channels s.device := by
        rw [stored,List.length_take,Nat.min_eq_left (h.worker.fidelity.returns r hmem),hs.channels hstarted,Nat.mul_comm]
      refine .answers hidle hone ?_
      simpa [step,Playback.answer,hr] using hp.accepts hasks hle hlen
  · obtain ⟨-,count',destination',hasks',hserves⟩ := hs.busy hidle
    obtain ⟨rfl,rfl⟩ := Prod.mk.inj (Option.some.inj (hasks'.symm.trans hasks))
    exact .waits hidle hserves

/-- The samples taken from the worker are the first of its stream. -/
def Heard (s : State cfg) : Prop :=
  cfg.player.heard s.device = (OutputWorkerThread.stream cfg.worker).take (cfg.player.heard s.device).length

theorem Joined.heard_eq_take (hs : Joined s) (h : Reachable s) (hdrain : s.worker.owner.draining = false)
    (hsize : 0 < cfg.worker.bufferSize) : Heard s := by
  have hreturned : cfg.player.heard s.device <+: OutputWorkerThread.framesReturned s.worker := by
    refine ⟨(s.worker.returns.drop s.answered).flatMap (stored cfg),?_⟩
    rw [hs.heard,← List.flatMap_append,List.take_append_drop]
    rfl
  exact BlockStream.eq_take_of_prefix
    (hreturned.trans ((List.prefix_append _ _).trans (h.worker.delivered_prefix hdrain hsize)))

theorem Reachable.heard (h : Reachable s) (hp : cfg.player.Sound) (hsize : 0 < cfg.worker.bufferSize) : Heard s := by
  have hinit : Heard (initial cfg) := by simp [Heard,initial,hp.silent]
  have hboth := Reaches.invariant (I := fun s => Reachable s ∧ Heard s) h ⟨.refl,hinit⟩ ?_
  · exact hboth.2
  · rintro s a t - ⟨hr,hs⟩ hstep
    have ht : Reachable t := Reaches.tail hr trivial hstep
    refine ⟨ht,?_⟩
    cases Move.of_step hstep with
    | @device a d hlets hd =>
      simp only [State.letsDevice,Bool.and_eq_true,Bool.not_eq_true'] at hlets
      have hun := hp.own hr.device hd hlets.2
      rw [Heard] at hs ⊢
      rw [hun.heard]
      exact hs
    | worker => exact hs
    | call => exact hs
    | answer hreturn hd =>
      -- the device is still at work, so its worker is not being taken apart
      have hdrain : s.worker.owner.draining = false := by
        rcases (hr.joined hp).returned with hnone | ⟨_,_,_,-,-,hasks,-⟩
        · have hlt := (List.getElem?_eq_some_iff.mp hreturn).1
          omega
        · obtain ⟨hstarted,hgone,-⟩ := hp.asking hr.device hasks
          rw [(hr.joined hp).owner hstarted hgone]
          rfl
      exact (ht.joined hp).heard_eq_take ht hdrain hsize

end Playback
end AudioOutput
