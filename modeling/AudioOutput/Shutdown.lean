import AudioOutput.BufferOwnership

/-!
# Taking the worker apart

Runs in which the I/O thread makes no call of `write` any more: only the worker
and the owner, that is the destructor, take steps.
-/

namespace AudioOutput
namespace OutputWorkerThread

open Transition

universe u
variable {α : Type u} {cfg : Config α}

@[simp] def Closing : Action α → Prop
  | .worker | .owner | .destroy => True
  | .io | .write _ _ => False

/-- What closing keeps, with the buffer that the last call of `write` has left. -/
structure Quiet (current : Option Pointer) (s : State cfg) : Prop where
  ownership : Ownership s
  built : s.owner.constructing = false
  idle : s.io = .idle
  current : s.currentBuffer = current
  returnedDrained : s.owner = .drainingPrepared ∨ s.owner = .destroyed → s.returnedBuffers = []
  preparedDrained : s.owner = .destroyed → s.preparedBuffers = []

theorem Reachable.quiet [Zero α] {s : State cfg} (h : Reachable s) (hrun : s.owner = .running) (hidle : s.io = .idle) :
    Quiet s.currentBuffer s where
  ownership := h.ownership
  built := by rw [hrun]; rfl
  idle := hidle
  current := rfl
  returnedDrained := by simp [hrun]
  preparedDrained := by simp [hrun]

variable [Zero α]

theorem Move.closing_fields {s t : State cfg} {a : Action α} (h : Move s a t) (ha : Closing a) :
    t.io = s.io ∧ t.currentBuffer = s.currentBuffer ∧ t.returns = s.returns := by
  cases h with
  | acquireNone | acquireSome | acquireHeld | copyNone | copyAll | copyPart | release | signal | clear | again | finish
  | beginWrite => exact ha.elim
  | count => simp
  | _ => exact ⟨rfl,rfl,rfl⟩

theorem Move.built {s t : State cfg} {a : Action α} (h : Move s a t) (hbuilt : s.owner.constructing = false) :
    t.owner.constructing = false := by
  cases h with
  | allocate hpc | allocated hpc | pushNew hpc | signalAll hpc => simp [hpc] at hbuilt
  | start | pushStop | signalStop | join | drainedReturned | drainedPrepared | beginDestroy => rfl
  | count => simpa using hbuilt
  | _ => exact hbuilt

theorem Move.quiet {current : Option Pointer} {s t : State cfg} {a : Action α} (h : Move s a t) (ha : Closing a)
    (hq : Quiet current s) (hnext : Ownership t) : Quiet current t where
  ownership := hnext
  built := h.built hq.built
  idle := (h.closing_fields ha).1.trans hq.idle
  current := (h.closing_fields ha).2.1.trans hq.current
  returnedDrained := by
    intro hdone
    cases h with
    | drainedReturned _ hnil => exact hnil
    | drainPrepared hpc | drainedPrepared hpc => exact hq.returnedDrained (Or.inl hpc)
    | drainReturned hpc => simp [dispose,hpc] at hdone
    | pop hpc =>
      -- the worker has returned before anything is drained
      have hdrain : s.owner.draining = true := by rcases hdone with ho | ho <;> exact congrArg OwnerPc.draining ho
      simp [hq.ownership.joined hdrain] at hpc
    | allocate | allocated | pushNew | signalAll | start | pushStop | signalStop | join | beginDestroy => simp at hdone
    | release => exact ha.elim
    | count => simpa using hq.returnedDrained (by simpa using hdone)
    | _ => exact hq.returnedDrained hdone
  preparedDrained := by
    intro hdone
    cases h with
    | drainedPrepared _ hnil => exact hnil
    | drainReturned hpc | drainPrepared hpc => simp [dispose,hpc] at hdone
    | push hpc =>
      have hdrain : s.owner.draining = true := congrArg OwnerPc.draining hdone
      simp [hq.ownership.joined hdrain] at hpc
    | allocate | allocated | pushNew | signalAll | start | pushStop | signalStop | join | drainedReturned
    | beginDestroy => cases hdone
    | acquireNone | acquireSome => exact ha.elim
    | count => simpa using hq.preparedDrained (by simpa using hdone)
    | _ => exact hq.preparedDrained hdone

theorem Quiet.preserved {current : Option Pointer} {s t : State cfg} {a : Action α} (hq : Quiet current s)
    (ha : Closing a) (h : step s a = some t) : Quiet current t :=
  (step_move h).quiet ha hq (hq.ownership.step h)

theorem Quiet.reaches {current : Option Pointer} {s t : State cfg} (hq : Quiet current s)
    (h : Reaches step Closing s t) : Quiet current t :=
  h.invariant hq fun _ _ _ ha hq hstep => hq.preserved ha hstep

omit [Zero α] in
theorem Ownership.heap_of_draining {s : State cfg} (hs : Ownership s) (hdrain : s.owner.draining = true)
    {p : Pointer} (hp : p ∈ places s) : ∃ i < cfg.mixahead, p = .heap i := by
  rcases hs.cases_of_mem hp with ⟨i,hi,rfl⟩ | ⟨_,_,hrun⟩
  · exact ⟨i,hi.trans_le hs.bound,rfl⟩
  · rw [hs.joined hdrain] at hrun
    cases hrun

omit [Zero α] in
theorem Ownership.dispose_data {s : State cfg} (hs : Ownership s) (hdrain : s.owner.draining = true)
    (hdata : s.disposedData = s.disposed) {tmp : Pointer} (htmp : tmp ∈ places s) :
    (dispose s tmp).disposedData = (dispose s tmp).disposed := by
  obtain ⟨i,_,rfl⟩ := hs.heap_of_draining hdrain htmp
  have htype : (s.heap (.heap i)).type = .buffer := by
    cases hc : (s.heap (.heap i)).type
    · rfl
    · cases (hs.type_eq_stop_iff htmp).mp hc
  simp [dispose,htype,hdata]

/-- The destructor frees a buffer together with its samples. -/
theorem Reachable.disposedData {s : State cfg} (h : Reachable s) : s.disposedData = s.disposed := by
  have hboth := Reaches.invariant (I := fun s => Ownership s ∧ s.disposedData = s.disposed) h
    ⟨initial_ownership,rfl⟩ fun s a t _ ⟨hs,hdata⟩ hstep => ⟨hs.step hstep,?_⟩
  · exact hboth.2
  · cases step_move hstep with
    | drainReturned hpc hq =>
      exact hs.dispose_data (by rw [hpc]; rfl) hdata (by simp [places,hq])
    | drainPrepared hpc hq =>
      exact hs.dispose_data (by rw [hpc]; rfl) hdata (by simp [places,hq])
    | count hpc => simpa using hdata
    | _ => exact hdata

omit [Zero α] in
/-- The queues are empty in the end, so the buffer that `write` holds is the only
one that can be missing. -/
theorem Quiet.count_disposed {current : Option Pointer} {t : State cfg} (hq : Quiet current t)
    (hdone : t.owner = .destroyed) {i : ℕ} (hi : i < cfg.mixahead) :
    current.toList.count (.heap i)+t.disposed.count (.heap i) = 1 := by
  have hs := hq.ownership
  have hworker := hs.joined (by rw [hdone]; rfl)
  have hall := hs.allocated
  have hone := hs.count_heap (i := i) (by rw [hall,hdone]; exact hi)
  rw [hdone,hworker,hq.idle,hq.current,hq.returnedDrained (Or.inr hdone),hq.preparedDrained hdone] at hone
  simpa using hone

omit [Zero α] in
theorem Quiet.current_heap {current : Option Pointer} {t : State cfg} (hq : Quiet current t)
    (hdone : t.owner = .destroyed) {p : Pointer} (hp : current = some p) : ∃ i < cfg.mixahead, p = .heap i := by
  refine hq.ownership.heap_of_draining (by rw [hdone]; rfl) ?_
  simp [places,hq.idle,hq.current,hp]

/-- The destructor disposes of every buffer, its command and its samples, exactly
once if and only if the last call of `write` has not left it one half read. -/
theorem buffers_disposed {s t : State cfg} (h : Reachable s) (hrun : s.owner = .running) (hidle : s.io = .idle)
    (hclose : Reaches step Closing s t) (hdone : t.owner = .destroyed) :
    (∀ i < cfg.mixahead, t.disposed.count (.heap i) = 1 ∧ t.disposedData.count (.heap i) = 1) ↔
      s.currentBuffer = none := by
  have hq := (h.quiet hrun hidle).reaches hclose
  have hreach : Reachable t := Reaches.trans h (hclose.mono fun _ _ => trivial)
  have hdata := hreach.disposedData
  constructor
  · intro hall
    by_contra hsome
    obtain ⟨p,hp⟩ := Option.ne_none_iff_exists'.mp hsome
    obtain ⟨i,hi,rfl⟩ := hq.current_heap hdone hp
    have hone := hq.count_disposed hdone hi
    rw [hp,(hall i hi).1] at hone
    simp at hone
  · intro hnone i hi
    have hone := hq.count_disposed hdone hi
    rw [hnone] at hone
    rw [hdata]
    simpa using hone

def writeAll : List (Action ℕ) := construct ++ mixOnce ++ .write 2 [0,0] :: List.replicate 9 .io

def closeAfterMix : List (Action ℕ) :=
  [.destroy,.worker,.worker,.owner,.owner] ++ List.replicate 8 .worker ++ List.replicate 4 .owner

theorem buffers_disposed_after_writeAll : ∃ s t : State counting, Reachable s ∧ s.currentBuffer = none ∧
    Reaches step Closing s t ∧ t.owner = .destroyed ∧ t.disposed.count (.heap 0) = 1 := by
  have hrun : (run step (initial counting) writeAll).isSome := rfl
  have hreach := reachable_of_run (Option.some_get hrun).symm
  have hrun' : (run step ((run step (initial counting) writeAll).get hrun) closeAfterMix).isSome := rfl
  have hclose : Reaches step Closing _ _ :=
    Reaches.of_run (by simp [closeAfterMix]) (Option.some_get hrun').symm
  exact ⟨_,_,hreach,rfl,hclose,rfl,((buffers_disposed hreach rfl rfl hclose rfl).mpr rfl 0 Nat.one_pos).1⟩

/-- The last call of `write` takes one of the two frames of the only buffer, and the
destructor runs to its end without ever seeing that buffer. -/
theorem buffer_leaked_after_partial_write : ∃ s t : State counting, Reachable s ∧ s.owner = .running ∧
    s.io = .idle ∧ Reaches step Closing s t ∧ t.owner = .destroyed ∧ 0 < counting.mixahead ∧
    t.disposed.count (.heap 0) = 0 ∧ t.disposedData.count (.heap 0) = 0 := by
  let acts : List (Action ℕ) := construct ++ mixOnce ++ .write 1 [0] :: List.replicate 6 .io
  let close : List (Action ℕ) := [.destroy,.owner,.owner,.worker,.worker,.worker,.owner,.owner,.owner]
  have hrun : (run step (initial counting) acts).isSome := rfl
  have hrun' : (run step ((run step (initial counting) acts).get hrun) close).isSome := rfl
  have hclose : Reaches step Closing _ _ :=
    Reaches.of_run (by simp [close]) (Option.some_get hrun').symm
  exact ⟨_,_,reachable_of_run (Option.some_get hrun).symm,rfl,rfl,hclose,rfl,by decide,rfl,rfl⟩

end OutputWorkerThread
end AudioOutput
