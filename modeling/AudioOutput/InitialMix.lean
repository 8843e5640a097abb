import AudioOutput.WriteCalls

/-!
# The initial mix

The I/O thread of a device calls `awaitInitialMix` once, and `write` only after that. The
flag it waits for is raised when as many buffers have been mixed as there are, and until
then nobody has taken one away.
-/

namespace AudioOutput
namespace OutputWorkerThread

open Transition

universe u
variable {α : Type u} (cfg : Config α)

/-- The worker object and whether `awaitInitialMix` has returned. -/
structure Startup where
  worker : State cfg
  awaited : Bool

inductive StartupAction (α : Type u) : Type u
  | awaitInitialMix
  | thread (a : Action α)

def Action.isWrite : Action α → Bool
  | .write _ _ => true
  | _ => false

variable {cfg} [Zero α]

/-- A turn of `while(finished_initial_mix.load() == 0) yield`, or a step of the threads. -/
def startupStep (s : Startup cfg) : StartupAction α → Option (Startup cfg)
  | .awaitInitialMix =>
    if s.awaited then none else
    if s.worker.finishedInitialMix = 0 then some s else some { s with awaited := true }
  | .thread a =>
    if a.isWrite && !s.awaited then none else (step s.worker a).map fun t => { s with worker := t }

def Startup.Reachable (s : Startup cfg) : Prop :=
  Reaches startupStep (fun _ => True) ⟨initial cfg,false⟩ s

inductive StartupMove (s : Startup cfg) : StartupAction α → Startup cfg → Prop
  | spin (hawaited : s.awaited = false) (hflag : s.worker.finishedInitialMix = 0) : StartupMove s .awaitInitialMix s
  | finish (hawaited : s.awaited = false) (hflag : s.worker.finishedInitialMix ≠ 0) :
      StartupMove s .awaitInitialMix { s with awaited := true }
  | thread {a : Action α} {t : State cfg} (hallowed : s.awaited = false → a.isWrite = false) (hstep : step s.worker a = some t) :
      StartupMove s (.thread a) { s with worker := t }

theorem StartupMove.of_step {s t : Startup cfg} {a : StartupAction α} (h : startupStep s a = some t) : StartupMove s a t := by
  cases a with
  | awaitInitialMix =>
    simp only [startupStep] at h
    split at h
    · cases h
    · have hawaited : s.awaited = false := Bool.eq_false_iff.mpr ‹_›
      split at h <;> cases h
      · exact .spin hawaited ‹_›
      · exact .finish hawaited ‹_›
  | thread a =>
    simp only [startupStep] at h
    split at h
    case isTrue => cases h
    case isFalse hallowed =>
      obtain ⟨u,hu,rfl⟩ := Option.map_eq_some_iff.mp h
      exact .thread (fun hawaited => by simpa [hawaited] using hallowed) hu

omit [Zero α] in
@[simp] def WorkerPc.uncounted : WorkerPc → ℕ
  | .counting => 1
  | _ => 0

structure Mixing (s : State cfg) : Prop where
  idle : s.io = .idle
  current : s.currentBuffer = none
  returns : s.returns = []
  data : (inFlight s).map (fun p => (s.heap p).data) = s.produced
  counted : s.initialMixDone = false → s.preparedBuffers.length = s.mixed+s.worker.uncounted ∧ s.mixed < cfg.mixahead
  full : s.initialMixDone = true → s.preparedBuffers.length = cfg.mixahead
  raised : s.finishedInitialMix ≠ 0 → s.initialMixDone = true

omit [Zero α] in
theorem initial_mixing (hmix : 1 ≤ cfg.mixahead) : Mixing (initial cfg) := by
  constructor <;> simp [initial,inFlight]
  omega

theorem Move.eq_of_idle {s t : State cfg} (h : Move s .io t) (hidle : s.io = .idle) : t = s := by
  cases h <;> first | rfl | simp_all

theorem Move.idle_fields {s t : State cfg} {a : Action α} (h : Move s a t) (hidle : s.io = .idle) (ha : a.isWrite = false) :
    t.io = s.io ∧ t.currentBuffer = s.currentBuffer ∧ t.returns = s.returns := by
  cases a with
  | io => rw [h.eq_of_idle hidle]; simp
  | write c d => cases ha
  | worker => exact h.closing_fields trivial
  | owner => exact h.closing_fields trivial
  | destroy => exact h.closing_fields trivial

/-- The buffers on their way keep their samples. -/
theorem Move.data_inFlight {s t : State cfg} {a : Action α} (h : Move s a t) (hs : Ownership s) (hf : Fidelity s)
    (hidle : s.io = .idle) (ha : a.isWrite = false) (hdrain : t.owner.draining = false)
    (hdata : (inFlight s).map (fun p => (s.heap p).data) = s.produced) :
    (inFlight t).map (fun p => (t.heap p).data) = t.produced := by
  have hheap : ∀ p ∈ inFlight s, t.heap p = s.heap p := fun p hp => h.heap_inFlight hs hp fun _ _ => by simp [hidle]
  have hkeep (hi : inFlight t = inFlight s) (hp : t.produced = s.produced) :
      (inFlight t).map (fun p => (t.heap p).data) = t.produced := by
    rw [hi,hp,← hdata]
    exact List.map_congr_left fun p hp => by rw [hheap p hp]
  cases a with
  | io => rwa [h.eq_of_idle hidle]
  | write c d => cases ha
  | worker =>
    cases h with
    | spin => exact hdata
    | @mix cmd hpc =>
      obtain ⟨j,hj,rfl,_⟩ := hs.worker_exclusive (Or.inr (Or.inl hpc))
      have hall := (hf.splice_size hj (cfg.converter.length_write s.converter _)).1
      have hmoved := List.map_congr_left fun p hp => congrArg AudioCommand.data (hheap p hp)
      rw [hdata] at hmoved
      simp only [inFlight,hpc,WorkerPc.mixedHands,List.append_nil,List.map_append] at hmoved ⊢
      rw [← hmoved]
      simp [State.setHeap,hall]
    | wait hpc hsem => exact hkeep (by simp [inFlight,hpc]) rfl
    | pop hpc hq => exact hkeep (by simp [inFlight,hpc]) rfl
    | stop hpc htype => exact hkeep (by simp [inFlight,hpc]) rfl
    | take hpc htype => exact hkeep (by simp [inFlight,hpc]) rfl
    | reset hpc => exact hkeep (by simp [inFlight,hpc,State.setHeap]) rfl
    | push hpc hroom => exact hkeep (by simp [inFlight,hpc]) rfl
    | count hpc => exact hkeep (by simp [inFlight,hpc]) (by simp)
  | owner =>
    cases h with
    | drainReturned hpc hq => simp [dispose,hpc] at hdrain
    | drainPrepared hpc hq => simp [dispose,hpc] at hdrain
    | start hpc =>
      have hworker := hs.unstarted.mp (by rw [hpc]; rfl)
      exact hkeep (by simp [inFlight,hworker]) rfl
    | _ => exact hkeep rfl rfl
  | destroy =>
    cases h with
    | _ => exact hkeep rfl rfl

inductive Queued (s t : State cfg) : Prop
  | same (hqueue : t.preparedBuffers = s.preparedBuffers) (hpc : t.worker.uncounted = s.worker.uncounted)
      (hmixed : t.mixed = s.mixed) (hdone : t.initialMixDone = s.initialMixDone)
      (hflag : t.finishedInitialMix = s.finishedInitialMix)
  | pushed (hroom : s.preparedBuffers.length < cfg.mixahead)
      (hqueue : t.preparedBuffers.length = s.preparedBuffers.length+1)
      (hpc : t.worker.uncounted = s.worker.uncounted+1) (hmixed : t.mixed = s.mixed)
      (hdone : t.initialMixDone = s.initialMixDone) (hflag : t.finishedInitialMix = s.finishedInitialMix)
  | counted (hpc : s.worker = .counting) (ht : t = { countInitialMix s with worker := .waiting })

theorem Move.queued {s t : State cfg} {a : Action α} (h : Move s a t) (hs : Ownership s) (hidle : s.io = .idle)
    (ha : a.isWrite = false) (hdrain : t.owner.draining = false) : Queued s t := by
  cases a with
  | io => rw [h.eq_of_idle hidle]; exact .same rfl rfl rfl rfl rfl
  | write c d => cases ha
  | worker =>
    cases h with
    | spin => exact .same rfl rfl rfl rfl rfl
    | push hpc hroom => exact .pushed hroom (by simp) (by simp [hpc]) rfl rfl rfl
    | count hpc => exact .counted hpc rfl
    | wait hpc hsem => exact .same rfl (by simp [hpc]) rfl rfl rfl
    | pop hpc hq => exact .same rfl (by simp [hpc]) rfl rfl rfl
    | stop hpc htype => exact .same rfl (by simp [hpc]) rfl rfl rfl
    | take hpc htype => exact .same rfl (by simp [hpc]) rfl rfl rfl
    | reset hpc => exact .same rfl (by simp [hpc]) rfl rfl rfl
    | mix hpc => exact .same rfl (by simp [hpc]) rfl rfl rfl
  | owner =>
    cases h with
    | drainPrepared hpc hq => simp [dispose,hpc] at hdrain
    | start hpc =>
      have hworker := hs.unstarted.mp (by rw [hpc]; rfl)
      exact .same rfl (by simp [hworker]) rfl rfl rfl
    | _ => exact .same rfl rfl rfl rfl rfl
  | destroy =>
    cases h with
    | _ => exact .same rfl rfl rfl rfl rfl

omit [Zero α] in
theorem countInitialMix_cases (s : State cfg) (hdone : s.initialMixDone = false) :
    (s.mixed+1 = cfg.mixahead ∧ countInitialMix s =
      { s with mixed := s.mixed+1, finishedInitialMix := 1, initialMixDone := true }) ∨
    (s.mixed+1 ≠ cfg.mixahead ∧ countInitialMix s = { s with mixed := s.mixed+1 }) := by
  unfold countInitialMix
  rw [if_pos hdone]
  split
  · exact .inl ⟨‹_›,rfl⟩
  · exact .inr ⟨‹_›,rfl⟩

theorem Move.mixing {s t : State cfg} {a : Action α} (h : Move s a t) (hs : Ownership s) (hf : Fidelity s) (hm : Mixing s)
    (ha : a.isWrite = false) (hdrain : t.owner.draining = false) : Mixing t := by
  obtain ⟨hio,hcurrent,hreturns⟩ := h.idle_fields hm.idle ha
  have hidle := hio.trans hm.idle
  have hnone := hcurrent.trans hm.current
  have hnil := hreturns.trans hm.returns
  have hdata := h.data_inFlight hs hf hm.idle ha hdrain hm.data
  cases h.queued hs hm.idle ha hdrain with
  | same hqueue hpc hmixed hdone hflag =>
    refine ⟨hidle,hnone,hnil,hdata,?_,?_,?_⟩
    · rw [hdone,hqueue,hpc,hmixed]
      exact hm.counted
    · rw [hdone,hqueue]
      exact hm.full
    · rw [hdone,hflag]
      exact hm.raised
  | pushed hroom hqueue hpc hmixed hdone hflag =>
    refine ⟨hidle,hnone,hnil,hdata,fun hno => ?_,fun hyes => ?_,?_⟩
    · obtain ⟨hlen,hlt⟩ := hm.counted (hdone ▸ hno)
      rw [hqueue,hpc,hmixed]
      omega
    · have hlen := hm.full (hdone ▸ hyes)
      omega
    · rw [hdone,hflag]
      exact hm.raised
  | counted hpc ht =>
    subst ht
    cases hdone : s.initialMixDone with
    | true =>
      have hsame : countInitialMix s = s := by simp [countInitialMix,hdone]
      have hlen := hm.full hdone
      refine ⟨hidle,hnone,hnil,hdata,?_,?_,?_⟩ <;> simp [hsame,hdone,hlen]
    | false =>
      obtain ⟨hlen,hlt⟩ := hm.counted hdone
      have hflag : s.finishedInitialMix = 0 := by
        by_contra hne
        rw [hm.raised hne] at hdone
        cases hdone
      rw [hpc,WorkerPc.uncounted] at hlen
      rcases countInitialMix_cases s hdone with ⟨hlast,hcount⟩ | ⟨hmore,hcount⟩
      · refine ⟨hidle,hnone,hnil,hdata,?_,?_,?_⟩ <;> simp [hcount,hlen,hlast]
      · refine ⟨hidle,hnone,hnil,hdata,?_,?_,?_⟩ <;> simp [hcount,hlen,hdone,hflag]
        omega

theorem Startup.Reachable.mixing {s : Startup cfg} (h : s.Reachable) (hmix : 1 ≤ cfg.mixahead) :
    OutputWorkerThread.Reachable s.worker ∧
      (s.awaited = false → s.worker.owner.draining = false → Mixing s.worker) := by
  refine Reaches.invariant (I := fun s : Startup cfg => OutputWorkerThread.Reachable s.worker ∧
    (s.awaited = false → s.worker.owner.draining = false → Mixing s.worker)) h
    ⟨.refl,fun _ _ => initial_mixing hmix⟩ ?_
  rintro s a t - ⟨hreach,hm⟩ hstep
  cases StartupMove.of_step hstep with
  | spin => exact ⟨hreach,hm⟩
  | finish => exact ⟨hreach,fun hawaited => by cases hawaited⟩
  | thread hallowed hu =>
    refine ⟨hreach.tail trivial hu,fun hawaited hdrain => ?_⟩
    have hmove := step_move hu
    exact hmove.mixing hreach.ownership hreach.fidelity (hm hawaited (hmove.not_draining hdrain)) (hallowed hawaited) hdrain

omit [Zero α] in
theorem Ownership.perm_of_full {s : State cfg} (hs : Ownership s) (hfull : s.preparedBuffers.length = cfg.mixahead) :
    s.preparedBuffers.Perm ((List.range cfg.mixahead).map .heap) := by
  have hheap : ∀ p ∈ s.preparedBuffers, ∃ i < s.allocated, p = .heap i := fun p hp =>
    hs.inFlight_heap (by simp [inFlight,hp])
  have hnodup : s.preparedBuffers.Nodup := by
    refine List.nodup_iff_count_le_one.mpr fun p => ?_
    by_cases hp : p ∈ s.preparedBuffers
    · obtain ⟨i,hi,rfl⟩ := hheap p hp
      have hone := hs.count_heap hi
      omega
    · rw [List.count_eq_zero.mpr hp]
      exact Nat.zero_le _
  have hsub : s.preparedBuffers ⊆ (List.range cfg.mixahead).map .heap := fun p hp => by
    obtain ⟨i,hi,rfl⟩ := hheap p hp
    exact List.mem_map_of_mem (List.mem_range.mpr (hi.trans_le hs.bound))
  refine (hnodup.subperm hsub).perm_of_length_le ?_
  rw [List.length_map,List.length_range,hfull]

omit [Zero α] in
/-- What the caller of `awaitInitialMix` finds. -/
theorem Mixing.complete {s : State cfg} (hm : Mixing s) (hs : Ownership s) (hf : Fidelity s)
    (hflag : s.finishedInitialMix ≠ 0) : s.preparedBuffers.length = cfg.mixahead ∧
      s.preparedBuffers.map (fun p => (s.heap p).data) = (List.range cfg.mixahead).map (block cfg) := by
  have hfull := hm.full (hm.raised hflag)
  have hhands : s.worker.mixedHands = [] := by
    cases hpc : s.worker with
    | pushing cmd =>
      have hroom := hs.pushing_room hpc
      omega
    | _ => rfl
  have hdata := hm.data
  rw [inFlight,hm.idle,hm.current,hhands] at hdata
  simp only [IoPc.hands,Option.toList_none,List.nil_append,List.append_nil] at hdata
  have hlen := congrArg List.length hdata
  rw [List.length_map,hfull] at hlen
  refine ⟨hfull,hdata.trans ?_⟩
  rw [hlen]
  exact hf.produced

/-- Each call has stored as many frames as it was asked for, or all of `total` is gone. -/
structure Paid (total : ℕ) (s : State cfg) : Prop where
  serves : ∃ count destination, s.io.Serves cfg.destinationChannels count destination
  most : ∀ r ∈ s.returns, r.written ≤ r.requested
  short : ∀ l r l', s.returns = l ++ r :: l' → r.written < r.requested →
    total ≤ (l.map WriteReturn.written).sum+r.written

theorem Move.paid {s t : State cfg} {a : Action α} (h : Move s a t) (hs : Ownership s) (hf : Fidelity s) {total : ℕ}
    (hsup : Supplied total s) (hp : Paid total s) : Paid total t := by
  have hserves : ∃ count destination, t.io.Serves cfg.destinationChannels count destination := by
    obtain ⟨count,destination,hold⟩ := hp.serves
    cases a with
    | io => exact ⟨count,destination,h.serves hs hf hold⟩
    | write c d =>
      cases h with
      | spin => exact ⟨count,destination,hold⟩
      | beginWrite hpc howner hroom => exact ⟨c,d,serves_start _ _ _⟩
    | worker => exact ⟨count,destination,(h.closing_fields trivial).1 ▸ hold⟩
    | owner => exact ⟨count,destination,(h.closing_fields trivial).1 ▸ hold⟩
    | destroy => exact ⟨count,destination,(h.closing_fields trivial).1 ▸ hold⟩
  cases h with
  | @finish w hpc =>
    obtain ⟨count,destination,hold⟩ := hp.serves
    have hcall := hold w 0 (by rw [hpc]; rfl)
    have htotal := hcall.total
    have hrequested := hcall.requested
    refine ⟨hserves,fun r hr => ?_,fun l r l' hsplit hshort => ?_⟩
    · rcases List.mem_append.mp hr with hr | hr
      · exact hp.most r hr
      · obtain rfl := List.mem_singleton.mp hr
        dsimp only
        omega
    · rcases List.eq_nil_or_concat' l' with rfl | ⟨l'',y,rfl⟩
      · obtain ⟨rfl,hlast⟩ := List.append_inj' hsplit rfl
        obtain rfl := List.singleton_injective hlast
        have hgone := hsup.short w (Or.inr hpc) (by dsimp only at hshort; omega)
        rwa [framesWritten,hpc] at hgone
      · rw [← List.cons_append,← List.append_assoc] at hsplit
        exact hp.short l r l'' (List.append_inj' hsplit rfl).1 hshort
  | count hpc => exact ⟨hserves,by simpa using hp.most,by simpa using hp.short⟩
  | _ => exact ⟨hserves,hp.most,hp.short⟩

theorem Reachable.paid {s t : State cfg} (h : OutputWorkerThread.Reachable s) (hframes : 1 ≤ cfg.destinationFrames) {total : ℕ}
    (hsup : Supplied total s) (hp : Paid total s) (hreach : Reaches step (fun _ => True) s t)
    (hdrain : t.owner.draining = false) : Paid total t := by
  refine (h.before_draining (I := fun t => Supplied total t ∧ Paid total t) ⟨hsup,hp⟩ hreach hdrain ?_).2
  intro t u a ht hboth hmove hdrain
  have hsup' := hmove.supplied hboth.1 ht.ownership ht.fidelity (ht.held hframes) hdrain
  exact ⟨hsup',hmove.paid ht.ownership ht.fidelity hboth.1 hboth.2⟩

omit [Zero α] in
/-- The first call that comes away with too little has emptied the supply. -/
theorem Paid.full {s : State cfg} {total : ℕ} (hp : Paid total s) {l l' : List (WriteReturn α)} (hl : s.returns = l ++ l')
    (hsum : (l.map WriteReturn.requested).sum ≤ total) : ∀ r ∈ l, r.written = r.requested := by
  induction l using List.reverseRecOn generalizing l' with
  | nil => simp
  | append_singleton l r ih =>
    rw [List.append_assoc] at hl
    rw [List.map_append,List.sum_append,List.map_singleton,List.sum_singleton] at hsum
    have hbefore := ih hl (by omega)
    have hsame : l.map WriteReturn.written = l.map WriteReturn.requested := List.map_congr_left hbefore
    have hmost := hp.most r (by simp [hl])
    have hlast : r.written = r.requested := by
      by_contra hne
      have hgone := hp.short l r l' hl (by omega)
      rw [hsame] at hgone
      omega
    intro q hq
    rcases List.mem_append.mp hq with hq | hq
    · exact hbefore q hq
    · rwa [List.mem_singleton.mp hq]

theorem Startup.reaches_worker {s t : Startup cfg} (h : Reaches startupStep (fun _ => True) s t) :
    Reaches step (fun _ => True) s.worker t.worker := by
  induction h with
  | refl => exact .refl
  | @tail t u a _ _ hstep ih =>
    cases StartupMove.of_step hstep with
    | spin => exact ih
    | finish => exact ih
    | thread _ hu => exact ih.tail trivial hu

omit [Zero α] in
theorem Mixing.supplied {s : State cfg} (hm : Mixing s) (hf : Fidelity s)
    (hfull : s.preparedBuffers.length = cfg.mixahead) : Supplied (cfg.mixahead*cfg.destinationFrames) s := by
  have hunused : s.preparedBuffers.map (unused s) = s.preparedBuffers.map fun _ => cfg.destinationFrames :=
    List.map_congr_left fun p hp => by rw [unused,hf.fresh p hp,Nat.sub_zero]
  refine ⟨?_,fun w hmissed => by simp [Missed,hm.idle] at hmissed⟩
  rw [supply,available,readable,hm.idle,hm.current]
  simp [hunused,hfull]

/-- `awaitInitialMix` returns with all buffers prepared, unused, and mixed in their order.
From then on the calls of `write` are served in full as long as the frames asked for so
far do not exceed those of the initial mix, and none of them waits for the worker. -/
theorem initial_mix_suffices {s t : Startup cfg} (h : s.Reachable) (hmix : 1 ≤ cfg.mixahead)
    (hframes : 1 ≤ cfg.destinationFrames) (hawait : startupStep s .awaitInitialMix = some t) (hreturned : t.awaited = true)
    (hdrain : t.worker.owner.draining = false) :
    (t.worker.preparedBuffers.Perm ((List.range cfg.mixahead).map .heap) ∧
      (∀ p ∈ t.worker.preparedBuffers, (t.worker.heap p).used = 0) ∧
      t.worker.preparedBuffers.map (fun p => (t.worker.heap p).data) = (List.range cfg.mixahead).map (block cfg)) ∧
    ∀ u, Reaches startupStep (fun _ => True) t u → u.worker.owner.draining = false →
      (∀ k, ((u.worker.returns.take k).map WriteReturn.requested).sum ≤ cfg.mixahead*cfg.destinationFrames →
        ∀ r ∈ u.worker.returns.take k, r.written = r.requested) ∧
      ∀ count destination v, startupStep u (.thread (.write count destination)) = some v →
        ∀ l w, Logged step (fun _ a => a = .io) v.worker l w → w.returns = u.worker.returns →
          (step w .io).isSome ∧ (w.owner.stopQueued = false → l.length ≤ 7*count+3) := by
  obtain ⟨hreach,hmixing⟩ := h.mixing hmix
  obtain ⟨hbefore,hflag,rfl⟩ : s.awaited = false ∧ s.worker.finishedInitialMix ≠ 0 ∧ t = { s with awaited := true } := by
    cases StartupMove.of_step hawait with
    | spin hbefore => rw [hbefore] at hreturned; cases hreturned
    | finish hbefore hflag => exact ⟨hbefore,hflag,rfl⟩
  have hm := hmixing hbefore hdrain
  obtain ⟨hfull,hdata⟩ := hm.complete hreach.ownership hreach.fidelity hflag
  refine ⟨⟨hreach.ownership.perm_of_full hfull,hreach.fidelity.fresh,hdata⟩,fun u hu hdrain' => ?_⟩
  have hworker := Startup.reaches_worker hu
  refine ⟨fun k hsum => ?_,fun count destination v hwrite l w hlog hreturns => ?_⟩
  · have hpaid : Paid (cfg.mixahead*cfg.destinationFrames) s.worker := by
      refine ⟨⟨0,[],?_⟩,?_,?_⟩
      · rw [hm.idle]
        rintro w n hcall
        cases hcall
      · simp [hm.returns]
      · simp [hm.returns]
    have hafter := Reachable.paid hreach hframes (hm.supplied hreach.fidelity hfull) hpaid hworker hdrain'
    exact hafter.full (List.take_append_drop k _).symm hsum
  · cases StartupMove.of_step hwrite with
    | thread _ hx =>
      have hu' : OutputWorkerThread.Reachable u.worker := Reaches.trans hreach hworker
      obtain ⟨_,hd⟩ := During.of_reaches hu' hframes hx hlog.reaches hreturns
      obtain ⟨y,hstep,_⟩ := io_moves hd.busy
      refine ⟨by rw [hstep]; rfl,fun hqueued => ?_⟩
      have hle := io_steps_le hu' hframes hx hlog hreturns hqueued
      omega

/-- One buffer of two frames, of which two calls take one each. -/
theorem initial_mix_suffices_once : ∃ (u : Startup counting) (v : State counting), u.awaited = true ∧
    u.worker.returns.map WriteReturn.requested = [1,1] ∧ u.worker.returns.map WriteReturn.written = [1,1] ∧
    (step v .io).isSome := by
  have hrun : ((run startupStep (⟨initial counting,false⟩ : Startup counting) ((construct ++ mixOnce).map .thread)).bind fun s =>
      (startupStep s .awaitInitialMix).bind fun t => (startupStep t (.thread (.write 1 [0]))).bind fun v =>
        (run startupStep v (List.replicate 6 (.thread .io) ++ .thread (.write 1 [0]) :: List.replicate 9 (.thread .io))).map fun u =>
          ((t.awaited,t.worker.owner.draining),(u.awaited,u.worker.owner.draining),u.worker.returns.map WriteReturn.requested,
            t.worker.returns.length,v.worker.returns.length)) =
      some ((true,false),(true,false),[1,1],0,0) := by decide
  obtain ⟨s,hs,hrun⟩ := Option.bind_eq_some_iff.mp hrun
  obtain ⟨t,ht,hrun⟩ := Option.bind_eq_some_iff.mp hrun
  obtain ⟨v,hv,hrun⟩ := Option.bind_eq_some_iff.mp hrun
  obtain ⟨u,hu,hfacts⟩ := Option.map_eq_some_iff.mp hrun
  simp only [Prod.mk.injEq] at hfacts
  obtain ⟨⟨hawaited,hdrain⟩,⟨hawaited',hdrain'⟩,hrequested,hbefore,hbegun⟩ := hfacts
  have hreach : s.Reachable := Reaches.of_run (fun _ _ => trivial) hs
  have hpath : Reaches startupStep (fun _ => True) v u := Reaches.of_run (fun _ _ => trivial) hu
  have hsuff := (initial_mix_suffices hreach (by decide) (by decide) ht hawaited hdrain).2
  have hlen : u.worker.returns.take 2 = u.worker.returns :=
    List.take_of_length_le (by simpa using (congrArg List.length hrequested).le)
  have hserved := (hsuff u (Reaches.trans (Reaches.refl.tail trivial hv) hpath) hdrain').1 2
    (by rw [hlen,hrequested]; decide)
  rw [hlen] at hserved
  have hmoves := (hsuff t .refl hdrain).2 1 [0] v hv [] _ .refl
    (by rw [List.length_eq_zero_iff.mp hbegun,List.length_eq_zero_iff.mp hbefore])
  exact ⟨u,v.worker,hawaited',hrequested,(List.map_congr_left hserved).trans hrequested,hmoves.1⟩

end OutputWorkerThread
end AudioOutput
