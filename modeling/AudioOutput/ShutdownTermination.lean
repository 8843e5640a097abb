import AudioOutput.Shutdown

/-!
# The worker's last round

Once no more buffers come back the worker mixes at most those that are queued,
takes the stop command and returns.
-/

namespace AudioOutput
namespace OutputWorkerThread

open Transition

universe u
variable {α : Type u} {cfg : Config α}

@[simp] def WorkerPc.unmixedHands : WorkerPc → List Pointer
  | .inspecting cmd | .resetting cmd | .mixing cmd => [cmd]
  | _ => []

def unmixed (s : State cfg) : ℕ := (s.returnedBuffers ++ s.worker.unmixedHands).countP (· ≠ .stack)

@[simp] def WorkerPc.remaining : WorkerPc → ℕ
  | .unstarted | .popping | .returned => 0
  | .waiting => 1
  | .counting => 2
  | .pushing _ => 4
  | .mixing _ => 5
  | .resetting _ => 6
  | .inspecting _ => 7

@[simp] def OwnerPc.remaining : OwnerPc → ℕ
  | .destroyed => 0
  | .drainingPrepared => 1
  | .drainingReturned => 2
  | .joining => 3
  | .stopSignalling => 4
  | .stopPushing => 13
  | _ => 14

/-- Eight for an entry to pop, and the way to the end of each loop. -/
def remaining (s : State cfg) : ℕ :=
  8*s.returnedBuffers.length+s.preparedBuffers.length+s.worker.remaining+s.owner.remaining

theorem Ownership.unmixed_le {s : State cfg} (hs : Ownership s) (hrun : s.owner = .running) :
    unmixed s ≤ cfg.mixahead := by
  have hlen := hs.length_places
  have hbound := hs.bound
  have hhands : s.worker.unmixedHands.length ≤ s.worker.hands.length := by cases s.worker <;> simp
  have hcount := List.countP_le_length (p := fun p => decide (p ≠ .stack))
    (l := s.returnedBuffers ++ s.worker.unmixedHands)
  have hnone : stopInPlay s = [] := by rw [stopInPlay,hrun]; rfl
  rw [hnone,List.length_nil] at hlen
  rw [List.length_append] at hcount
  unfold unmixed
  omega

namespace Quiet

variable {current : Option Pointer} {s : State cfg} (hq : Quiet current s)
include hq

theorem semaphore_eq (hdrain : s.owner.draining = false) (hsignal : s.owner ≠ .stopSignalling)
    (hpc : s.worker = .waiting) : s.semaphore = s.returnedBuffers.length := by
  have hsem := hq.ownership.semaphore hdrain
  have hbuilt := hq.built
  have hpending : s.owner.pendingSignals cfg.mixahead = 0 := by
    cases ho : s.owner <;> simp_all
  rw [hpending,hq.idle,hpc] at hsem
  simpa using hsem

/-- With every entry of `returned_buffers` taken the worker holds nothing: it is on
its way to the next pop. -/
theorem full_worker (howner : s.owner = .stopPushing) (hfull : cfg.mixahead ≤ s.returnedBuffers.length) :
    s.worker = .waiting ∨ s.worker = .popping ∨ s.worker = .counting := by
  have hlen := hq.ownership.length_places
  have hbound := hq.ownership.bound
  have hnone : stopInPlay s = [] := by rw [stopInPlay,howner]; rfl
  rw [hnone,List.length_nil] at hlen
  have hhands : s.worker.hands = [] := List.length_eq_zero_iff.mp (by omega)
  have hunstarted := hq.ownership.unstarted
  have hreturned := hq.ownership.returned
  cases hpc : s.worker <;> simp_all

end Quiet

variable [Zero α]

/-- Mixing uses up the buffers that have come back, and no other step adds any. -/
theorem Move.unmixed_le {s t : State cfg} {a : Action α} (h : Move s a t) (ha : Closing a) (hs : Ownership s)
    (hbuilt : s.owner.constructing = false) : t.produced.length+unmixed t ≤ s.produced.length+unmixed s := by
  have hheld := hs.stackHeld
  simp only [unmixed,List.countP_append]
  cases h with
  | spin => exact le_refl _
  | pop hpc hq => simp_all [List.countP_cons]
  | mix hpc => simp_all [State.setHeap]; omega
  | drainReturned hpc hq => simp_all [dispose,List.countP_cons]
  | pushStop hpc hroom => simp_all
  | _ => simp_all [State.setHeap,dispose]

theorem Move.remaining_lt {s t : State cfg} {a : Action α} (h : Move s a t) (ha : Closing a)
    (hbuilt : s.owner.constructing = false) : t = s ∨ remaining t < remaining s := by
  simp only [remaining]
  cases h with
  | spin => exact Or.inl rfl
  | _ => right; simp_all [State.setHeap,dispose] <;> omega

/-- A worker that is not waiting in vain has a step that takes it on. -/
theorem worker_moves {s : State cfg} (hs : Ownership s) (hbuilt : s.owner.constructing = false)
    (hdrain : s.owner.draining = false) (hrun : s.worker ≠ .returned)
    (hwait : s.worker = .waiting → 0 < s.semaphore) : ∃ t, step s .worker = some t ∧ t ≠ s := by
  have hne {t : State cfg} (h : t.worker ≠ s.worker) : t ≠ s := fun he => h (he ▸ rfl)
  cases hpc : s.worker with
  | unstarted =>
    rw [hs.unstarted.mpr hpc] at hbuilt
    cases hbuilt
  | waiting => exact ⟨_,by simp only [step,workerThread,hpc,hwait hpc,if_true]; rfl,hne (by simp [hpc])⟩
  | popping =>
    obtain ⟨cmd,rest,hret⟩ := List.exists_cons_of_ne_nil (hs.popping_ne_nil hpc hdrain)
    exact ⟨_,by simp only [step,workerThread,hpc,hret]; rfl,hne (by simp [hpc])⟩
  | inspecting cmd =>
    by_cases htype : (s.heap cmd).type = .stop
    · exact ⟨_,by simp only [step,workerThread,hpc,htype,if_true]; rfl,hne (by simp [hpc])⟩
    · exact ⟨_,by simp only [step,workerThread,hpc,htype,if_false]; rfl,hne (by simp [hpc])⟩
  | resetting cmd => exact ⟨_,by simp only [step,workerThread,hpc]; rfl,hne (by simp [hpc])⟩
  | mixing cmd => exact ⟨_,by simp only [step,workerThread,hpc]; rfl,hne (by simp [hpc])⟩
  | pushing cmd =>
    have hroom := hs.pushing_room hpc
    exact ⟨_,by simp only [step,workerThread,hpc,push,hroom,if_true]; rfl,hne (by simp [hpc])⟩
  | counting => exact ⟨_,by simp only [step,workerThread,hpc]; rfl,hne (by simp [hpc])⟩
  | returned => exact absurd hpc hrun

theorem Reachable.produced_le {s t : State cfg} (h : Reachable s) (hrun : s.owner = .running)
    (hidle : s.io = .idle) (hclose : Reaches step Closing s t) :
    t.produced.length ≤ s.produced.length+cfg.mixahead := by
  have hboth := hclose.invariant
    (I := fun t => Quiet s.currentBuffer t ∧ t.produced.length+unmixed t ≤ s.produced.length+unmixed s)
    ⟨h.quiet hrun hidle,le_refl _⟩ fun u a v ha ⟨hq,hle⟩ hstep =>
      ⟨hq.preserved ha hstep,((step_move hstep).unmixed_le ha hq.ownership hq.built).trans hle⟩
  have hstart := h.ownership.unmixed_le hrun
  have hend := hboth.2
  omega

namespace Quiet

variable {current : Option Pointer} {s : State cfg} (hq : Quiet current s)
include hq

/-- The worker makes room for the stop command. -/
theorem room_for_stop (hmix : 1 ≤ cfg.mixahead) (howner : s.owner = .stopPushing)
    (hfull : cfg.mixahead ≤ s.returnedBuffers.length) :
    ∃ n ≤ 3, ∃ t, run step s (List.replicate n .worker) = some t ∧ t.returnedBuffers.length < cfg.mixahead := by
  have hlen := hq.ownership.length_places
  have hbound := hq.ownership.bound
  have hnone : stopInPlay s = [] := by rw [stopInPlay,howner]; rfl
  rw [hnone,List.length_nil] at hlen
  obtain ⟨cmd,rest,hret⟩ := List.exists_cons_of_ne_nil (List.ne_nil_of_length_pos (hmix.trans hfull))
  have hrest : rest.length < cfg.mixahead := by
    rw [hret,List.length_cons] at hlen
    omega
  have hsignalled (hpc : s.worker.granted = 0) : 0 < s.semaphore := by
    have hsem := hq.ownership.semaphore (by rw [howner]; rfl)
    rw [howner,hq.idle,hpc,hret] at hsem
    simp at hsem
    omega
  rcases hq.full_worker howner hfull with hpc | hpc | hpc
  · have hpos := hsignalled (by rw [hpc]; rfl)
    exact ⟨2,by decide,_,by simp [run,step,workerThread,hpc,hpos,hret]; rfl,hrest⟩
  · exact ⟨1,by decide,_,by simp [run,step,workerThread,hpc,hret]; rfl,hrest⟩
  · have hpos := hsignalled (by rw [hpc]; rfl)
    exact ⟨3,by decide,_,by simp [run,step,workerThread,hpc,hpos,hret]; rfl,hrest⟩

/-- Until the destructor is through, somebody has a step that is not a spin. -/
theorem progress (hmix : 1 ≤ cfg.mixahead) (hdone : s.owner ≠ .destroyed) :
    ∃ a t, Closing a ∧ step s a = some t ∧ remaining t < remaining s := by
  suffices h : ∃ a t, Closing a ∧ step s a = some t ∧ t ≠ s by
    obtain ⟨a,t,ha,hstep,hne⟩ := h
    exact ⟨a,t,ha,hstep,((step_move hstep).remaining_lt ha hq.built).resolve_left hne⟩
  have hne {t : State cfg} (h : t.owner ≠ s.owner) : t ≠ s := fun he => h (he ▸ rfl)
  have hbuilt := hq.built
  cases howner : s.owner with
  | allocating i => simp [howner] at hbuilt
  | pushing i => simp [howner] at hbuilt
  | signalling => simp [howner] at hbuilt
  | starting => simp [howner] at hbuilt
  | running => exact ⟨.destroy,_,trivial,by simp only [step,beginDestroy,howner]; rfl,hne (by simp [howner])⟩
  | stopPushing =>
    by_cases hroom : s.returnedBuffers.length < cfg.mixahead
    · exact ⟨.owner,_,trivial,by simp only [step,ownerThread,howner,push,hroom,if_true]; rfl,hne (by simp [howner])⟩
    · have hfull := Nat.le_of_not_lt hroom
      have hworker := hq.full_worker howner hfull
      have hwait (hpc : s.worker = .waiting) : 0 < s.semaphore := by
        rw [hq.semaphore_eq (by rw [howner]; rfl) (by simp [howner]) hpc]
        exact hmix.trans hfull
      obtain ⟨t,hstep,ht⟩ := OutputWorkerThread.worker_moves hq.ownership hq.built (by rw [howner]; rfl) (by rintro hpc; simp [hpc] at hworker) hwait
      exact ⟨.worker,t,trivial,hstep,ht⟩
  | stopSignalling => exact ⟨.owner,_,trivial,by simp only [step,ownerThread,howner]; rfl,hne (by simp [howner])⟩
  | joining =>
    by_cases hworker : s.worker = .returned
    · exact ⟨.owner,_,trivial,by simp only [step,ownerThread,howner,hworker,if_true]; rfl,hne (by simp [howner])⟩
    -- the stop command is still queued, so the worker is not left waiting
    · have hwait (hpc : s.worker = .waiting) : 0 < s.semaphore := by
        have hmem := hq.ownership.stack_mem (by rw [howner]; rfl) (by rw [hpc]; rfl) (by simp [hpc])
        rw [hq.semaphore_eq (by rw [howner]; rfl) (by simp [howner]) hpc]
        exact List.length_pos_of_mem hmem
      obtain ⟨t,hstep,ht⟩ := OutputWorkerThread.worker_moves hq.ownership hq.built (by rw [howner]; rfl) hworker hwait
      exact ⟨.worker,t,trivial,hstep,ht⟩
  | drainingReturned =>
    cases hret : s.returnedBuffers with
    | nil => exact ⟨.owner,_,trivial,by simp only [step,ownerThread,howner,hret]; rfl,hne (by simp [howner])⟩
    | cons tmp rest =>
      refine ⟨.owner,_,trivial,by simp only [step,ownerThread,howner,hret]; rfl,fun he => ?_⟩
      have := congrArg State.returnedBuffers he
      simp [hret] at this
  | drainingPrepared =>
    cases hprep : s.preparedBuffers with
    | nil => exact ⟨.owner,_,trivial,by simp only [step,ownerThread,howner,hprep]; rfl,hne (by simp [howner])⟩
    | cons tmp rest =>
      refine ⟨.owner,_,trivial,by simp only [step,ownerThread,howner,hprep]; rfl,fun he => ?_⟩
      have := congrArg State.preparedBuffers he
      simp [hprep] at this
  | destroyed => exact absurd howner hdone

end Quiet

/-- Under weak fairness the destructor runs to its end. -/
theorem Quiet.destroyed {current : Option Pointer} (e : Execution (S := State cfg) step Closing)
    (hq : Quiet current (e.state 0)) (hmix : 1 ≤ cfg.mixahead) (hfair : e.WeaklyFair) :
    ∃ n, (e.state n).owner = .destroyed :=
  e.eventually hfair remaining hq (fun _ _ _ ha hq hstep => hq.preserved ha hstep)
    (fun _ _ _ ha hq _ hstep => (step_move hstep).remaining_lt ha hq.built)
    fun _ hq hdone => hq.progress hmix hdone

/-- Taking the worker apart after the last call of `write`. In every interleaving a
full queue is three steps of the worker from having room for the stop command, the
worker mixes no more than `mixahead` buffers, is never held up by its own queue nor
left waiting once the stop command is signalled, and when it has returned the stop
command is in no queue; and if both threads are scheduled fairly the destructor ends. -/
theorem shutdown_completes {s : State cfg} (h : Reachable s) (hrun : s.owner = .running) (hidle : s.io = .idle)
    (hmix : 1 ≤ cfg.mixahead) :
    (∀ t, Reaches step Closing s t →
      (t.owner = .stopPushing → cfg.mixahead ≤ t.returnedBuffers.length → ∃ n ≤ 3, ∃ u,
        run step t (List.replicate n .worker) = some u ∧ u.returnedBuffers.length < cfg.mixahead) ∧
      t.produced.length ≤ s.produced.length+cfg.mixahead ∧
      (∀ cmd, t.worker = .pushing cmd → t.preparedBuffers.length < cfg.mixahead) ∧
      (t.worker = .waiting → .stack ∈ t.returnedBuffers → 0 < t.semaphore ∨ t.owner = .stopSignalling) ∧
      (t.owner.draining = true → t.worker = .returned ∧ .stack ∉ t.returnedBuffers ∧
        .stack ∉ t.preparedBuffers ∧ .stack ∉ t.disposed)) ∧
    ∀ e : Execution step Closing, Reaches step Closing s (e.state 0) → e.WeaklyFair →
      ∃ n, (e.state n).owner = .destroyed ∧ (e.state n).worker = .returned := by
  have hquiet := h.quiet hrun hidle
  refine ⟨fun t ht => ?_,fun e he hfair => ?_⟩
  · have hq := hquiet.reaches ht
    have hs := hq.ownership
    refine ⟨hq.room_for_stop hmix,h.produced_le hrun hidle ht,fun _ => hs.pushing_room,fun hpc hmem => ?_,
      fun hdrain => ?_⟩
    · have hdrain : t.owner.draining = false :=
        Bool.eq_false_iff.mpr fun hd => by rw [hs.joined hd] at hpc; cases hpc
      by_cases hsignal : t.owner = .stopSignalling
      · exact Or.inr hsignal
      · left
        rw [hq.semaphore_eq hdrain hsignal hpc]
        exact List.length_pos_of_mem hmem
    · have hfree {l : List Pointer} (hl : ∀ p ∈ l, p ∈ places t) : .stack ∉ l := fun hmem => by
        obtain ⟨i,_,hi⟩ := hs.heap_of_draining hdrain (hl _ hmem)
        cases hi
      exact ⟨hs.joined hdrain,hfree (by simp +contextual [places]),hfree (by simp +contextual [places]),
        hfree (by simp +contextual [places])⟩
  · obtain ⟨n,hn⟩ := (hquiet.reaches he).destroyed e hmix hfair
    have hs := (hquiet.reaches (he.trans (e.reaches n))).ownership
    exact ⟨n,hn,hs.joined (by rw [hn]; rfl)⟩

/-- The destructor of an object whose buffers are all still queued. -/
theorem shutdown_completes_when_full : ∃ s t : State counting, Reachable s ∧ Reaches step Closing s t ∧
    t.owner = .stopPushing ∧ t.returnedBuffers.length = counting.mixahead ∧
    (∃ n ≤ 3, ∃ u, run step t (List.replicate n .worker) = some u ∧ u.returnedBuffers.length < counting.mixahead) ∧
    ∀ e : Execution step Closing, e.state 0 = t → e.WeaklyFair → ∃ n, (e.state n).owner = .destroyed := by
  have hrun : (run step (initial counting) construct).isSome := rfl
  have hreach := reachable_of_run (Option.some_get hrun).symm
  have hrun' : (run step ((run step (initial counting) construct).get hrun) [.destroy]).isSome := rfl
  have hclose : Reaches step Closing _ _ := Reaches.of_run (by simp) (Option.some_get hrun').symm
  have h := shutdown_completes hreach rfl rfl (by decide)
  refine ⟨_,_,hreach,hclose,rfl,rfl,(h.1 _ hclose).1 rfl (le_refl _),fun e he hfair => ?_⟩
  obtain ⟨n,hn⟩ := h.2 e (he ▸ hclose) hfair
  exact ⟨n,hn.1⟩

end OutputWorkerThread
end AudioOutput
