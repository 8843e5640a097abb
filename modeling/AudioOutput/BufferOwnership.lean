import AudioOutput.OutputWorkerThread

/-!
# Who holds which buffer

Every step moves at most one pointer from one place to another, and the
semaphore counts the entries of `returned_buffers` that have been signalled.
-/

namespace AudioOutput
namespace OutputWorkerThread

open Transition

universe u
variable {α : Type u} {cfg : Config α}

@[simp] def WorkerPc.hands : WorkerPc → List Pointer
  | .inspecting cmd | .resetting cmd | .mixing cmd | .pushing cmd => [cmd]
  | _ => []

@[simp] def OwnerPc.hands : OwnerPc → List Pointer
  | .pushing i => [.heap i]
  | _ => []

/-- After the push in `releaseBuffer` the buffer is no longer the I/O thread's,
though `current_buffer` keeps its address until the signal is out. -/
@[simp] def IoPc.hands (current : Option Pointer) : IoPc α → List Pointer
  | .signalling _ _ | .clearing _ _ => []
  | _ => current.toList

@[simp] def OwnerPc.constructing : OwnerPc → Bool
  | .allocating _ | .pushing _ | .signalling | .starting => true
  | _ => false

@[simp] def OwnerPc.stopMade : OwnerPc → Bool
  | .stopPushing | .stopSignalling | .joining | .drainingReturned | .drainingPrepared | .destroyed => true
  | _ => false

@[simp] def OwnerPc.stopQueued : OwnerPc → Bool
  | .stopSignalling | .joining | .drainingReturned | .drainingPrepared | .destroyed => true
  | _ => false

@[simp] def OwnerPc.draining : OwnerPc → Bool
  | .drainingReturned | .drainingPrepared | .destroyed => true
  | _ => false

@[simp] def OwnerPc.allocated (mixahead : ℕ) : OwnerPc → ℕ
  | .allocating i => i
  | .pushing i => i+1
  | _ => mixahead

@[simp] def WorkerPc.finished : WorkerPc → Bool
  | .returned => true
  | _ => false

def stopInPlay (s : State cfg) : List Pointer :=
  bif s.owner.stopQueued && !s.worker.finished then [.stack] else []

def places (s : State cfg) : List Pointer :=
  s.owner.hands ++ s.returnedBuffers ++ s.worker.hands ++ s.preparedBuffers ++
    s.io.hands s.currentBuffer ++ s.disposed

/-- Entries of `returned_buffers` whose signal is still to come. -/
@[simp] def OwnerPc.pendingSignals (mixahead : ℕ) : OwnerPc → ℕ
  | .allocating i | .pushing i => i
  | .signalling => mixahead
  | .stopSignalling => 1
  | _ => 0

@[simp] def IoPc.pendingSignals : IoPc α → ℕ
  | .signalling _ _ => 1
  | _ => 0

@[simp] def WorkerPc.granted : WorkerPc → ℕ
  | .popping => 1
  | _ => 0

@[simp] theorem countInitialMix_fields (s : State cfg) :
    (countInitialMix s).heap = s.heap ∧ (countInitialMix s).allocated = s.allocated ∧
    (countInitialMix s).preparedBuffers = s.preparedBuffers ∧
    (countInitialMix s).returnedBuffers = s.returnedBuffers ∧
    (countInitialMix s).semaphore = s.semaphore ∧ (countInitialMix s).currentBuffer = s.currentBuffer ∧
    (countInitialMix s).io = s.io ∧ (countInitialMix s).owner = s.owner ∧
    (countInitialMix s).converter = s.converter ∧ (countInitialMix s).produced = s.produced ∧
    (countInitialMix s).returns = s.returns ∧ (countInitialMix s).disposed = s.disposed ∧
    (countInitialMix s).disposedData = s.disposedData := by
  unfold countInitialMix
  split
  · split <;> simp
  · simp

structure Ownership (s : State cfg) : Prop where
  placed : (places s).Perm ((List.range s.allocated).map .heap ++ stopInPlay s)
  allocated : s.allocated = s.owner.allocated cfg.mixahead
  bound : s.allocated ≤ cfg.mixahead
  heapType : ∀ i < s.allocated, (s.heap (.heap i)).type = .buffer
  stackType : s.owner.stopMade = true → (s.heap .stack).type = .stop
  unstarted : s.owner.constructing = true ↔ s.worker = .unstarted
  idle : s.owner.constructing = true → s.io = .idle
  returned : s.worker = .returned → s.owner.stopQueued = true
  joined : s.owner.draining = true → s.worker = .returned
  releasing : ∀ w buff n, s.io = .releasing w buff n → s.currentBuffer = some buff
  semaphore : s.owner.draining = false →
    s.semaphore+s.worker.granted+s.owner.pendingSignals cfg.mixahead+s.io.pendingSignals =
      s.returnedBuffers.length
  undisposed : s.owner.draining = false → s.disposed = []
  stackFree : Pointer.stack ∉ s.preparedBuffers ++ s.io.hands s.currentBuffer ++ s.disposed
  stackHeld : ∀ cmd, (s.worker = .resetting cmd ∨ s.worker = .mixing cmd ∨ s.worker = .pushing cmd) →
    cmd ≠ .stack

theorem initial_ownership : Ownership (initial cfg) := by
  constructor <;> simp [initial,places,stopInPlay]

theorem Ownership.cases_of_mem {s : State cfg} (hs : Ownership s) {p : Pointer} (hp : p ∈ places s) :
    (∃ i < s.allocated, p = .heap i) ∨
      (p = .stack ∧ s.owner.stopQueued = true ∧ s.worker.finished = false) := by
  have hmem := hs.placed.mem_iff.mp hp
  simp only [stopInPlay,List.mem_append,List.mem_map,List.mem_range] at hmem
  rcases hmem with ⟨i,hi,rfl⟩ | hstack
  · exact Or.inl ⟨i,hi,rfl⟩
  · cases hq : s.owner.stopQueued <;> cases hf : s.worker.finished <;> simp_all

theorem OwnerPc.stopMade_of_stopQueued {o : OwnerPc} (h : o.stopQueued = true) : o.stopMade = true := by
  cases o <;> simp_all

/-- Only the destructor's own command is of type stop. -/
theorem Ownership.type_eq_stop_iff {s : State cfg} (hs : Ownership s) {p : Pointer} (hp : p ∈ places s) :
    (s.heap p).type = .stop ↔ p = .stack := by
  rcases hs.cases_of_mem hp with ⟨i,hi,rfl⟩ | ⟨rfl,hqueued,_⟩
  · simp [hs.heapType i hi]
  · simp [hs.stackType (OwnerPc.stopMade_of_stopQueued hqueued)]

theorem Ownership.inspecting_mem {s : State cfg} {cmd : Pointer} (hpc : s.worker = .inspecting cmd) :
    cmd ∈ places s := by
  simp [places,hpc]

theorem update_type {heap : Pointer → AudioCommand α} {p : Pointer} {c : AudioCommand α}
    (hc : c.type = (heap p).type) (q : Pointer) : (Function.update heap p c q).type = (heap q).type := by
  by_cases hq : q = p
  · subst hq
    simp [hc]
  · simp [hq]

namespace Ownership

variable {s : State cfg} (hs : Ownership s)
include hs

theorem count_places (p : Pointer) :
    s.owner.hands.count p+s.returnedBuffers.count p+s.worker.hands.count p+s.preparedBuffers.count p+
      (s.io.hands s.currentBuffer).count p+s.disposed.count p =
      ((List.range s.allocated).map Pointer.heap).count p+(stopInPlay s).count p := by
  have h := hs.placed.count_eq p
  simpa only [places,List.count_append] using h

theorem length_places :
    s.owner.hands.length+s.returnedBuffers.length+s.worker.hands.length+s.preparedBuffers.length+
      (s.io.hands s.currentBuffer).length+s.disposed.length = s.allocated+(stopInPlay s).length := by
  have h := hs.placed.length_eq
  simpa only [places,List.length_append,List.length_map,List.length_range] using h

theorem count_heap {i : ℕ} (hi : i < s.allocated) :
    s.owner.hands.count (.heap i)+s.returnedBuffers.count (.heap i)+s.worker.hands.count (.heap i)+
      s.preparedBuffers.count (.heap i)+(s.io.hands s.currentBuffer).count (.heap i)+
      s.disposed.count (.heap i) = 1 := by
  have hinj : Function.Injective Pointer.heap := fun a b h => by cases h; rfl
  have hone : ((List.range s.allocated).map Pointer.heap).count (.heap i) = 1 := by
    rw [List.count_map_of_injective _ _ hinj]
    exact List.count_eq_one_of_mem List.nodup_range (List.mem_range.mpr hi)
  have hstop : (stopInPlay s).count (.heap i) = 0 := by
    unfold stopInPlay
    cases s.owner.stopQueued && !s.worker.finished <;> simp
  rw [hs.count_places,hone,hstop]

/-- While the stop command is in play and not in the worker's hands, it is queued. -/
theorem stack_mem (hqueued : s.owner.stopQueued = true) (hrun : s.worker.finished = false)
    (hhands : .stack ∉ s.worker.hands) : .stack ∈ s.returnedBuffers := by
  have hcount := hs.count_places .stack
  have hfree := hs.stackFree
  have hone : (stopInPlay s).count .stack = 1 := by rw [stopInPlay,hqueued,hrun]; rfl
  have howner : s.owner.hands.count .stack = 0 := by cases s.owner <;> simp
  have hheap : ((List.range s.allocated).map Pointer.heap).count .stack = 0 :=
    List.count_eq_zero.mpr (by simp)
  simp only [List.mem_append,not_or] at hfree
  obtain ⟨⟨hp,hio⟩,hd⟩ := hfree
  rw [← List.count_eq_zero] at hp hio hd hhands
  exact List.count_pos_iff.mp (by omega)

theorem popping_ne_nil (hpc : s.worker = .popping) (hdrain : s.owner.draining = false) :
    s.returnedBuffers ≠ [] := by
  have hsem := hs.semaphore hdrain
  rw [hpc] at hsem
  intro hnil
  rw [hnil] at hsem
  simp at hsem

/-- The worker that has mixed a buffer finds room for it. -/
theorem pushing_room {cmd : Pointer} (hpc : s.worker = .pushing cmd) :
    s.preparedBuffers.length < cfg.mixahead := by
  have hlen := hs.length_places
  have hbound := hs.bound
  have hcmd := hs.stackHeld cmd (Or.inr (Or.inr hpc))
  have hhands : s.worker.hands = [cmd] := by rw [hpc]; rfl
  rw [hhands,List.length_singleton] at hlen
  cases hqueued : s.owner.stopQueued with
  | false =>
    have hnone : stopInPlay s = [] := by rw [stopInPlay,hqueued]; rfl
    rw [hnone] at hlen
    simp only [List.length_nil] at hlen
    omega
  | true =>
    -- the stop command takes up an entry of its own in the other queue
    have hmem := hs.stack_mem hqueued (by rw [hpc]; rfl) (by rw [hhands]; simpa using hcmd.symm)
    have hpos := List.length_pos_of_mem hmem
    have hone : (stopInPlay s).length ≤ 1 := by
      unfold stopInPlay
      cases s.owner.stopQueued && !s.worker.finished <;> simp
    omega

theorem releasing_room {w : WriteCall α} {buff : Pointer} {n : ℕ} (hpc : s.io = .releasing w buff n)
    (hqueued : s.owner.stopQueued = false) : s.returnedBuffers.length < cfg.mixahead := by
  have hlen := hs.length_places
  have hbound := hs.bound
  have hcur := hs.releasing w buff n hpc
  have hio : (s.io.hands s.currentBuffer).length = 1 := by rw [hpc,hcur]; rfl
  have hnone : stopInPlay s = [] := by rw [stopInPlay,hqueued]; rfl
  rw [hio,hnone] at hlen
  simp only [List.length_nil] at hlen
  omega

/-- A worker blocked in `wait` leaves no buffer unused but one whose signal is still to come. -/
theorem blocked_filter_le (hpc : s.worker = .waiting) (hsem : s.semaphore = 0)
    (hdrain : s.owner.draining = false) :
    (s.returnedBuffers.filter (· ≠ .stack)).length ≤ s.io.pendingSignals := by
  have hcount := hs.semaphore hdrain
  have hbuilt : s.owner.constructing = false := by
    by_contra hne
    have hun := hs.unstarted.mp (by simpa only [Bool.not_eq_false] using hne)
    rw [hpc] at hun
    cases hun
  have hle := List.length_filter_le (fun p => decide (p ≠ .stack)) s.returnedBuffers
  rw [hpc,hsem] at hcount
  cases hqueued : s.owner.stopQueued with
  | false =>
    have hpending : s.owner.pendingSignals cfg.mixahead = 0 := by
      cases ho : s.owner <;> simp_all
    rw [hpending] at hcount
    simp only [WorkerPc.granted] at hcount
    omega
  | true =>
    have hmem := hs.stack_mem hqueued (by rw [hpc]; rfl) (by rw [hpc]; exact List.not_mem_nil)
    have hlt : (s.returnedBuffers.filter (· ≠ .stack)).length < s.returnedBuffers.length :=
      List.length_filter_lt_length_iff_exists.mpr ⟨.stack,hmem,by simp⟩
    have hpending : s.owner.pendingSignals cfg.mixahead ≤ 1 := by
      cases ho : s.owner <;> simp_all
    simp only [WorkerPc.granted] at hcount
    omega

end Ownership

variable [Zero α]

inductive Move (s : State cfg) : Action α → State cfg → Prop
  | spin (a : Action α) : Move s a s
  | wait (hpc : s.worker = .waiting) (hsem : 0 < s.semaphore) :
      Move s .worker { s with semaphore := s.semaphore-1, worker := .popping }
  | pop {cmd : Pointer} {rest : List Pointer} (hpc : s.worker = .popping)
      (hq : s.returnedBuffers = cmd :: rest) :
      Move s .worker { s with returnedBuffers := rest, worker := .inspecting cmd }
  | stop {cmd : Pointer} (hpc : s.worker = .inspecting cmd) (htype : (s.heap cmd).type = .stop) :
      Move s .worker { s with worker := .returned }
  | take {cmd : Pointer} (hpc : s.worker = .inspecting cmd) (htype : (s.heap cmd).type ≠ .stop) :
      Move s .worker { s with worker := .resetting cmd }
  | reset {cmd : Pointer} (hpc : s.worker = .resetting cmd) :
      Move s .worker { s.setHeap cmd { s.heap cmd with
        used := 0
        data := Buffer.splice (s.heap cmd).data 0
          (List.replicate (cfg.destinationFrames*cfg.destinationChannels) 0) } with
        worker := .mixing cmd }
  | mix {cmd : Pointer} (hpc : s.worker = .mixing cmd) :
      Move s .worker { s.setHeap cmd { s.heap cmd with
        data := Buffer.splice (s.heap cmd).data 0
          (cfg.converter.write s.converter cfg.destinationFrames).1 } with
        converter := (cfg.converter.write s.converter cfg.destinationFrames).2
        produced := s.produced ++ [(cfg.converter.write s.converter cfg.destinationFrames).1]
        worker := .pushing cmd }
  | push {cmd : Pointer} (hpc : s.worker = .pushing cmd) (hroom : s.preparedBuffers.length < cfg.mixahead) :
      Move s .worker { s with preparedBuffers := s.preparedBuffers ++ [cmd], worker := .counting }
  | count (hpc : s.worker = .counting) :
      Move s .worker { countInitialMix s with worker := .waiting }
  | acquireNone {w : WriteCall α} (hpc : s.io = .acquiring w) (hcur : s.currentBuffer = none)
      (hq : s.preparedBuffers = []) :
      Move s .io { s with preparedBuffers := [], currentBuffer := none, io := .copying w }
  | acquireSome {w : WriteCall α} {buff : Pointer} {rest : List Pointer} (hpc : s.io = .acquiring w)
      (hcur : s.currentBuffer = none) (hq : s.preparedBuffers = buff :: rest) :
      Move s .io { s with preparedBuffers := rest, currentBuffer := some buff, io := .copying w }
  | acquireHeld {w : WriteCall α} {buff : Pointer} (hpc : s.io = .acquiring w)
      (hcur : s.currentBuffer = some buff) : Move s .io { s with io := .copying w }
  | copyNone {w : WriteCall α} (hpc : s.io = .copying w) (hcur : s.currentBuffer = none) :
      Move s .io { s with io := .returning w 0 }
  | copyAll {w : WriteCall α} {buff : Pointer} (hpc : s.io = .copying w)
      (hcur : s.currentBuffer = some buff)
      (hused : (s.heap buff).used+willWrite cfg (s.heap buff) w.count = cfg.destinationFrames) :
      Move s .io { s.setHeap buff { s.heap buff with
        used := (s.heap buff).used+willWrite cfg (s.heap buff) w.count } with
        io := .releasing (w.copy cfg (s.heap buff)) buff (willWrite cfg (s.heap buff) w.count) }
  | copyPart {w : WriteCall α} {buff : Pointer} (hpc : s.io = .copying w)
      (hcur : s.currentBuffer = some buff)
      (hused : (s.heap buff).used+willWrite cfg (s.heap buff) w.count ≠ cfg.destinationFrames) :
      Move s .io { s.setHeap buff { s.heap buff with
        used := (s.heap buff).used+willWrite cfg (s.heap buff) w.count } with
        io := .returning (w.copy cfg (s.heap buff)) (willWrite cfg (s.heap buff) w.count) }
  | release {w : WriteCall α} {buff : Pointer} {n : ℕ} (hpc : s.io = .releasing w buff n)
      (hroom : s.returnedBuffers.length < cfg.mixahead) :
      Move s .io { s with returnedBuffers := s.returnedBuffers ++ [buff], io := .signalling w n }
  | signal {w : WriteCall α} {n : ℕ} (hpc : s.io = .signalling w n) :
      Move s .io { s with semaphore := s.semaphore+1, io := .clearing w n }
  | clear {w : WriteCall α} {n : ℕ} (hpc : s.io = .clearing w n) :
      Move s .io { s with currentBuffer := none, io := .returning w n }
  | again {w : WriteCall α} {n : ℕ} (hpc : s.io = .returning w n) (hn : 0 < n) :
      Move s .io { s with io := .acquiring (w.advance cfg n) }
  | finish {w : WriteCall α} (hpc : s.io = .returning w 0) :
      Move s .io { s with
        io := .idle
        returns := s.returns ++ [⟨w.requested,w.writtenTotal,w.destination⟩] }
  | allocate {i : ℕ} (hpc : s.owner = .allocating i) (hi : i < cfg.mixahead) :
      Move s .owner { s.setHeap (.heap i)
          { type := .buffer, data := (List.range cfg.bufferSize).map (cfg.unspecified i) } with
        allocated := i+1, owner := .pushing i }
  | allocated {i : ℕ} (hpc : s.owner = .allocating i) (hi : cfg.mixahead ≤ i) :
      Move s .owner { s with owner := .signalling }
  | pushNew {i : ℕ} (hpc : s.owner = .pushing i) (hroom : s.returnedBuffers.length < cfg.mixahead) :
      Move s .owner { s with
        returnedBuffers := s.returnedBuffers ++ [.heap i], owner := .allocating (i+1) }
  | signalAll (hpc : s.owner = .signalling) :
      Move s .owner { s with semaphore := s.semaphore+cfg.mixahead, owner := .starting }
  | start (hpc : s.owner = .starting) :
      Move s .owner { s with worker := .waiting, owner := .running }
  | pushStop (hpc : s.owner = .stopPushing) (hroom : s.returnedBuffers.length < cfg.mixahead) :
      Move s .owner { s with
        returnedBuffers := s.returnedBuffers ++ [.stack], owner := .stopSignalling }
  | signalStop (hpc : s.owner = .stopSignalling) :
      Move s .owner { s with semaphore := s.semaphore+1, owner := .joining }
  | join (hpc : s.owner = .joining) (hworker : s.worker = .returned) :
      Move s .owner { s with owner := .drainingReturned }
  | drainReturned {tmp : Pointer} {rest : List Pointer} (hpc : s.owner = .drainingReturned)
      (hq : s.returnedBuffers = tmp :: rest) :
      Move s .owner { dispose s tmp with returnedBuffers := rest }
  | drainedReturned (hpc : s.owner = .drainingReturned) (hq : s.returnedBuffers = []) :
      Move s .owner { s with owner := .drainingPrepared }
  | drainPrepared {tmp : Pointer} {rest : List Pointer} (hpc : s.owner = .drainingPrepared)
      (hq : s.preparedBuffers = tmp :: rest) :
      Move s .owner { dispose s tmp with preparedBuffers := rest }
  | drainedPrepared (hpc : s.owner = .drainingPrepared) (hq : s.preparedBuffers = []) :
      Move s .owner { s with owner := .destroyed }
  | beginWrite {count : ℕ} {destination : List α} (hpc : s.io = .idle)
      (howner : s.owner ∈ [OwnerPc.running,.stopPushing,.stopSignalling,.joining])
      (hroom : count*cfg.destinationChannels ≤ destination.length) :
      Move s (.write count destination) { s with io := .acquiring ⟨count,count,0,destination,0⟩ }
  | beginDestroy (hpc : s.owner = .running) :
      Move s .destroy { s.setHeap .stack { type := .stop } with owner := .stopPushing }

theorem workerThread_move {s t : State cfg} (h : workerThread s = some t) : Move s .worker t := by
  cases hpc : s.worker <;> simp only [workerThread,hpc] at h
  case unstarted | returned => cases h
  case waiting =>
    split at h
    · cases h
      exact .wait hpc ‹_›
    · cases h
  case popping =>
    split at h <;> cases h
    · exact .spin _
    · exact .pop hpc ‹_›
  case inspecting cmd =>
    split at h <;> cases h
    · exact .stop hpc ‹_›
    · exact .take hpc ‹_›
  case resetting cmd =>
    cases h
    exact .reset hpc
  case mixing cmd =>
    cases h
    exact .mix hpc
  case pushing cmd =>
    split at h <;> cases h
    · exact .spin _
    · rename_i q hq
      simp only [OutputWorkerThread.push] at hq
      split at hq <;> cases hq
      exact .push hpc ‹_›
  case counting =>
    cases h
    exact .count hpc

theorem ioThread_move {s t : State cfg} (h : ioThread s = some t) : Move s .io t := by
  cases hpc : s.io <;> simp only [ioThread,hpc] at h
  case idle => cases h
  case acquiring w =>
    split at h <;> cases h
    · rename_i hcur
      cases hq : s.preparedBuffers <;> simp only [acquireBuffer,hq]
      · exact .acquireNone hpc hcur hq
      · exact .acquireSome hpc hcur hq
    · exact .acquireHeld hpc ‹_›
  case copying w =>
    split at h
    · cases h
      exact .copyNone hpc ‹_›
    · split at h <;> cases h
      · exact .copyAll hpc ‹_› ‹_›
      · exact .copyPart hpc ‹_› ‹_›
  case releasing w buff n =>
    split at h <;> cases h
    · exact .spin _
    · rename_i q hq
      simp only [OutputWorkerThread.push] at hq
      split at hq <;> cases hq
      exact .release hpc ‹_›
  case signalling w n =>
    cases h
    exact .signal hpc
  case clearing w n =>
    cases h
    exact .clear hpc
  case returning w n =>
    split at h <;> cases h
    · exact .again hpc ‹_›
    · obtain rfl : n = 0 := by omega
      exact .finish hpc

theorem ownerThread_move {s t : State cfg} (h : ownerThread s = some t) : Move s .owner t := by
  cases hpc : s.owner <;> simp only [ownerThread,hpc] at h
  case running | destroyed => cases h
  case allocating i =>
    split at h <;> cases h
    · exact .allocate hpc ‹_›
    · exact .allocated hpc (by omega)
  case pushing i =>
    split at h <;> cases h
    · exact .spin _
    · rename_i q hq
      simp only [OutputWorkerThread.push] at hq
      split at hq <;> cases hq
      exact .pushNew hpc ‹_›
  case signalling =>
    cases h
    exact .signalAll hpc
  case starting =>
    cases h
    exact .start hpc
  case stopPushing =>
    split at h <;> cases h
    · exact .spin _
    · rename_i q hq
      simp only [OutputWorkerThread.push] at hq
      split at hq <;> cases hq
      exact .pushStop hpc ‹_›
  case stopSignalling =>
    cases h
    exact .signalStop hpc
  case joining =>
    split at h <;> cases h
    exact .join hpc ‹_›
  case drainingReturned =>
    split at h <;> cases h
    · exact .drainedReturned hpc ‹_›
    · exact .drainReturned hpc ‹_›
  case drainingPrepared =>
    split at h <;> cases h
    · exact .drainedPrepared hpc ‹_›
    · exact .drainPrepared hpc ‹_›

theorem step_move {s t : State cfg} {a : Action α} (h : step s a = some t) : Move s a t := by
  cases a with
  | worker => exact workerThread_move h
  | io => exact ioThread_move h
  | owner => exact ownerThread_move h
  | write count destination =>
    simp only [step,OutputWorkerThread.beginWrite] at h
    split at h
    all_goals first
      | (split at h <;> cases h; exact .beginWrite ‹_› (by simp [*]) ‹_›)
      | cases h
  | destroy =>
    simp only [step,OutputWorkerThread.beginDestroy] at h
    split at h <;> cases h
    exact .beginDestroy ‹_›

theorem Move.placed {s t : State cfg} {a : Action α} (h : Move s a t) (hs : Ownership s) :
    (places t).Perm ((List.range t.allocated).map .heap ++ stopInPlay t) := by
  have hp := hs.placed
  rw [List.perm_iff_count] at hp ⊢
  intro p
  specialize hp p
  simp only [places,stopInPlay,List.count_append] at hp ⊢
  cases h with
  | spin => exact hp
  | pop hpc hq =>
    simp [hpc,hq,List.count_cons] at hp ⊢
    omega
  | stop hpc htype =>
    have hmem := Ownership.inspecting_mem hpc
    have hcmd := (hs.type_eq_stop_iff hmem).mp htype
    subst hcmd
    rcases hs.cases_of_mem hmem with ⟨i,_,hi⟩ | ⟨_,hqueued,_⟩
    · cases hi
    · rw [hpc,hqueued] at hp
      simp only [WorkerPc.hands,WorkerPc.finished,Bool.not_false,Bool.not_true,Bool.and_true,
        Bool.and_false,cond_true,cond_false,List.count_nil] at hp ⊢
      omega
  | push hpc hroom =>
    simp [hpc] at hp ⊢
    omega
  | count hpc => simpa [hpc] using hp
  | acquireNone hpc hcur hq => simpa [hpc,hcur,hq] using hp
  | acquireSome hpc hcur hq =>
    simp [hpc,hcur,hq,List.count_cons] at hp ⊢
    omega
  | release hpc hroom =>
    have hcur := hs.releasing _ _ _ hpc
    simp [hpc,hcur] at hp ⊢
    omega
  | allocate hpc hi =>
    have hall := hs.allocated
    simp only [hpc,OwnerPc.allocated] at hall
    simp [hpc,hall,State.setHeap,List.range_succ] at hp ⊢
    omega
  | pushNew hpc hroom =>
    simp [hpc] at hp ⊢
    omega
  | start hpc =>
    have hworker := hs.unstarted.mp (by rw [hpc]; rfl)
    rw [hpc,hworker] at hp
    exact hp
  | pushStop hpc hroom =>
    have hrun : s.worker.finished = false := by
      cases hw : s.worker <;> simp
      simpa [hpc] using hs.returned hw
    rw [hpc,hrun] at hp
    rw [hrun]
    simp at hp ⊢
    omega
  | drainReturned hpc hq =>
    simp [hpc,hq,dispose,List.count_cons] at hp ⊢
    omega
  | drainPrepared hpc hq =>
    simp [hpc,hq,dispose,List.count_cons] at hp ⊢
    omega
  -- the pointers change hands in no other step
  | wait hpc | take hpc | reset hpc | mix hpc | acquireHeld hpc | copyNone hpc | copyAll hpc | copyPart hpc
  | signal hpc | clear hpc | again hpc | finish hpc | allocated hpc | signalAll hpc | signalStop hpc | join hpc
  | drainedReturned hpc | drainedPrepared hpc | beginWrite hpc | beginDestroy hpc =>
    rw [hpc] at hp
    exact hp

theorem Move.allocated_eq {s t : State cfg} {a : Action α} (h : Move s a t) (hs : Ownership s) :
    t.allocated = t.owner.allocated cfg.mixahead ∧ t.allocated ≤ cfg.mixahead := by
  have hall := hs.allocated
  have hbound := hs.bound
  cases h with
  | allocate hpc hi => exact ⟨rfl,hi⟩
  | allocated hpc hi =>
    -- the loop has ended, so the counter is at its bound
    rw [hpc] at hall
    exact ⟨le_antisymm hbound (hi.trans hall.ge),hbound⟩
  | pushNew hpc | signalAll hpc | start hpc | pushStop hpc | signalStop hpc | join hpc | drainedReturned hpc
  | drainedPrepared hpc | beginDestroy hpc =>
    rw [hpc] at hall
    exact ⟨hall,hbound⟩
  | count hpc => simpa using And.intro hall hbound
  | _ => exact ⟨hall,hbound⟩

theorem Move.heapType {s t : State cfg} {a : Action α} (h : Move s a t) (hs : Ownership s) :
    ∀ i < t.allocated, (t.heap (.heap i)).type = .buffer := by
  intro i hi
  cases h with
  | @allocate j hpc hj =>
    have hall := hs.allocated
    rw [hpc,OwnerPc.allocated] at hall
    by_cases hij : i = j
    · simp [State.setHeap,hij]
    · have hlt : i < s.allocated := hall ▸ lt_of_le_of_ne (Nat.lt_succ_iff.mp hi) hij
      simpa [State.setHeap,hij] using hs.heapType i hlt
  | reset | mix | copyAll | copyPart =>
    simpa [State.setHeap,update_type] using hs.heapType i hi
  | beginDestroy => simpa [State.setHeap] using hs.heapType i hi
  | count => simpa using hs.heapType i (by simpa using hi)
  | _ => exact hs.heapType i hi

theorem Move.stackType {s t : State cfg} {a : Action α} (h : Move s a t) (hs : Ownership s)
    (hmade : t.owner.stopMade = true) : (t.heap .stack).type = .stop := by
  cases h with
  | beginDestroy => simp [State.setHeap]
  | allocate | allocated | pushNew | signalAll | start => simp at hmade
  | pushStop hpc | signalStop hpc | join hpc | drainedReturned hpc | drainedPrepared hpc =>
    exact hs.stackType (by rw [hpc]; rfl)
  | reset | mix | copyAll | copyPart =>
    simpa [State.setHeap,update_type] using hs.stackType hmade
  | count => simpa using hs.stackType (by simpa using hmade)
  | _ => exact hs.stackType hmade

/-- While the constructor runs, neither of the other threads does. -/
theorem Move.constructing {s t : State cfg} {a : Action α} (h : Move s a t) (hs : Ownership s) :
    (t.owner.constructing = true ↔ t.worker = .unstarted) ∧ (t.owner.constructing = true → t.io = .idle) := by
  cases h with
  | allocate hpc | allocated hpc | pushNew hpc | signalAll hpc =>
    have hbuilding : s.owner.constructing = true := by rw [hpc]; rfl
    exact ⟨iff_of_true rfl (hs.unstarted.mp hbuilding),fun _ => hs.idle hbuilding⟩
  | start => simp
  | pushStop hpc | signalStop hpc | join hpc | drainedReturned hpc | drainedPrepared hpc | beginDestroy hpc =>
    have hstarted : s.worker ≠ .unstarted := mt hs.unstarted.mpr (by simp [hpc])
    exact ⟨iff_of_false (by simp) hstarted,by simp⟩
  | wait hpc | pop hpc | stop hpc | take hpc | reset hpc | mix hpc | push hpc | count hpc =>
    have hbuilt : ¬ s.owner.constructing = true := fun h => by simp [hs.unstarted.mp h] at hpc
    refine ⟨iff_of_false ?_ (by simp),fun h => ?_⟩
    · simpa [State.setHeap] using hbuilt
    · exact absurd (by simpa [State.setHeap] using h) hbuilt
  | acquireNone hpc | acquireSome hpc | acquireHeld hpc | copyNone hpc | copyAll hpc | copyPart hpc | release hpc
  | signal hpc | clear hpc | again hpc | finish hpc =>
    have hbuilt : ¬ s.owner.constructing = true := fun h => by simp [hs.idle h] at hpc
    exact ⟨hs.unstarted,fun h => absurd h hbuilt⟩
  | beginWrite hpc howner =>
    have hbuilt : ¬ s.owner.constructing = true := by
      simp only [List.mem_cons,List.not_mem_nil,or_false] at howner
      rcases howner with ho | ho | ho | ho <;> simp [ho]
    exact ⟨hs.unstarted,fun h => absurd h hbuilt⟩
  | _ => exact ⟨hs.unstarted,hs.idle⟩

theorem Move.returned {s t : State cfg} {a : Action α} (h : Move s a t) (hs : Ownership s)
    (hworker : t.worker = .returned) : t.owner.stopQueued = true := by
  cases h with
  | stop hpc htype =>
    have hmem := Ownership.inspecting_mem hpc
    rcases hs.cases_of_mem hmem with ⟨i,hi,rfl⟩ | ⟨_,hqueued,_⟩
    · simp [hs.heapType i hi] at htype
    · exact hqueued
  | wait | pop | take | reset | mix | push | count | start => simp at hworker
  | pushStop | signalStop | join | drainedReturned | drainedPrepared => rfl
  | allocate hpc | allocated hpc | pushNew hpc | signalAll hpc | beginDestroy hpc =>
    have hqueued := hs.returned hworker
    simp [hpc] at hqueued
  | _ => exact hs.returned hworker

theorem Move.joined {s t : State cfg} {a : Action α} (h : Move s a t) (hs : Ownership s)
    (hdrain : t.owner.draining = true) : t.worker = .returned := by
  cases h with
  | join hpc hworker => exact hworker
  | drainedReturned hpc | drainedPrepared hpc => exact hs.joined (by rw [hpc]; rfl)
  | allocate | allocated | pushNew | signalAll | start | pushStop | signalStop | beginDestroy => simp at hdrain
  | wait hpc | pop hpc | stop hpc | take hpc | reset hpc | mix hpc | push hpc | count hpc =>
    -- the worker has returned before anything is drained
    have hreturned := hs.joined (by simpa [State.setHeap] using hdrain)
    simp [hpc] at hreturned
  | _ => exact hs.joined hdrain

theorem Move.releasing {s t : State cfg} {a : Action α} (h : Move s a t) (hs : Ownership s)
    {w : WriteCall α} {buff : Pointer} {n : ℕ} (hio : t.io = .releasing w buff n) :
    t.currentBuffer = some buff := by
  cases h with
  | copyAll hpc hcur =>
    cases hio
    exact hcur
  | acquireNone | acquireSome | acquireHeld | copyNone | copyPart | release | signal | clear | again | finish
  | beginWrite => cases hio
  | count => simpa using hs.releasing w buff n (by simpa using hio)
  | _ => exact hs.releasing w buff n hio

theorem Move.draining {s t : State cfg} {a : Action α} (h : Move s a t)
    (hdrain : s.owner.draining = true) : t.owner.draining = true := by
  cases h with
  | allocate hpc | allocated hpc | pushNew hpc | signalAll hpc | start hpc | pushStop hpc | signalStop hpc
  | beginDestroy hpc => simp [hpc] at hdrain
  | join | drainedReturned | drainedPrepared => rfl
  | count => simpa using hdrain
  | _ => exact hdrain

theorem Move.not_draining {s t : State cfg} {a : Action α} (h : Move s a t)
    (hdrain : t.owner.draining = false) : s.owner.draining = false :=
  Bool.eq_false_iff.mpr fun hd => by rw [h.draining hd] at hdrain; cases hdrain

theorem Move.semaphore {s t : State cfg} {a : Action α} (h : Move s a t) (hs : Ownership s)
    (hdrain : t.owner.draining = false) :
    t.semaphore+t.worker.granted+t.owner.pendingSignals cfg.mixahead+t.io.pendingSignals =
      t.returnedBuffers.length := by
  have hsem := hs.semaphore (h.not_draining hdrain)
  cases h with
  | spin => exact hsem
  | wait hpc hpos =>
    simp only [hpc,WorkerPc.granted] at hsem ⊢
    omega
  | pop hpc hq =>
    simp only [hpc,hq,WorkerPc.granted,List.length_cons] at hsem ⊢
    omega
  | count hpc => simpa [hpc] using hsem
  | release hpc hroom =>
    simp only [hpc,IoPc.pendingSignals,List.length_append,List.length_singleton] at hsem ⊢
    omega
  | signal hpc =>
    simp only [hpc,IoPc.pendingSignals] at hsem ⊢
    omega
  | allocated hpc hi =>
    have hall := hs.allocated
    have hbound := hs.bound
    simp only [hpc,OwnerPc.pendingSignals,OwnerPc.allocated] at hsem hall ⊢
    omega
  | pushNew hpc hroom =>
    simp only [hpc,OwnerPc.pendingSignals,List.length_append,List.length_singleton] at hsem ⊢
    omega
  | signalAll hpc =>
    simp only [hpc,OwnerPc.pendingSignals] at hsem ⊢
    omega
  | start hpc =>
    have hworker := hs.unstarted.mp (by rw [hpc]; rfl)
    rw [hpc,hworker] at hsem
    exact hsem
  | pushStop hpc hroom =>
    simp only [hpc,OwnerPc.pendingSignals,List.length_append,List.length_singleton] at hsem ⊢
    omega
  | signalStop hpc =>
    simp only [hpc,OwnerPc.pendingSignals] at hsem ⊢
    omega
  | join hpc hworker => cases hdrain
  | drainReturned hpc hq | drainedReturned hpc hq | drainPrepared hpc hq | drainedPrepared hpc hq =>
    simp [dispose,hpc] at hdrain
  | stop hpc | take hpc | reset hpc | mix hpc | push hpc | acquireNone hpc | acquireSome hpc | acquireHeld hpc
  | copyNone hpc | copyAll hpc | copyPart hpc | clear hpc | again hpc | finish hpc | allocate hpc | beginWrite hpc
  | beginDestroy hpc =>
    rw [hpc] at hsem
    exact hsem

theorem Move.undisposed {s t : State cfg} {a : Action α} (h : Move s a t) (hs : Ownership s)
    (hdrain : t.owner.draining = false) : t.disposed = [] := by
  have hold := hs.undisposed (h.not_draining hdrain)
  cases h with
  | drainReturned hpc | drainPrepared hpc => simp [dispose,hpc] at hdrain
  | count => simpa using hold
  | _ => exact hold

theorem Move.stackFree {s t : State cfg} {a : Action α} (h : Move s a t) (hs : Ownership s) :
    Pointer.stack ∉ t.preparedBuffers ++ t.io.hands t.currentBuffer ++ t.disposed := by
  have hfree := hs.stackFree
  cases h with
  | push hpc hroom =>
    have hheld := hs.stackHeld _ (Or.inr (Or.inr hpc))
    simp_all
    exact fun h => hheld h.symm
  | @drainReturned tmp rest hpc hq =>
    have hworker := hs.joined (by rw [hpc]; rfl)
    have htmp : tmp ∈ places s := by simp [places,hq]
    rcases hs.cases_of_mem htmp with ⟨i,_,rfl⟩ | ⟨_,_,hrun⟩
    · simp_all [dispose]
    · simp [hworker] at hrun
  | count hpc => simpa [hpc] using hfree
  | drainPrepared hpc hq => simp_all [dispose]
  | acquireNone hpc hcur hq => simp_all
  | acquireSome hpc hcur hq => simp_all
  | release hpc hroom => simp_all
  | copyAll hpc | copyPart hpc | copyNone hpc | acquireHeld hpc | signal hpc | clear hpc | again hpc | finish hpc
  | beginWrite hpc =>
    rw [hpc] at hfree
    exact hfree
  | _ => exact hfree

/-- The worker keeps no command but one that it has found to be a buffer. -/
theorem Move.stackHeld {s t : State cfg} {a : Action α} (h : Move s a t) (hs : Ownership s) (cmd : Pointer)
    (hheld : t.worker = .resetting cmd ∨ t.worker = .mixing cmd ∨ t.worker = .pushing cmd) : cmd ≠ .stack := by
  cases h with
  | @take taken hpc htype =>
    rw [Ne,hs.type_eq_stop_iff (Ownership.inspecting_mem hpc)] at htype
    have hcmd : taken = cmd := by simpa using hheld
    exact hcmd ▸ htype
  | @reset held hpc =>
    have hcmd : held = cmd := by simpa using hheld
    exact hs.stackHeld cmd (Or.inl (hcmd ▸ hpc))
  | @mix held hpc =>
    have hcmd : held = cmd := by simpa using hheld
    exact hs.stackHeld cmd (Or.inr (Or.inl (hcmd ▸ hpc)))
  | wait | pop | stop | push | count | start => simp at hheld
  | _ => exact hs.stackHeld cmd hheld

theorem Ownership.step {s t : State cfg} {a : Action α} (hs : Ownership s) (h : step s a = some t) :
    Ownership t := by
  have hmove := step_move h
  exact {
    placed := hmove.placed hs
    allocated := (hmove.allocated_eq hs).1
    bound := (hmove.allocated_eq hs).2
    heapType := hmove.heapType hs
    stackType := hmove.stackType hs
    unstarted := (hmove.constructing hs).1
    idle := (hmove.constructing hs).2
    returned := hmove.returned hs
    joined := hmove.joined hs
    releasing := fun _ _ _ => hmove.releasing hs
    semaphore := hmove.semaphore hs
    undisposed := hmove.undisposed hs
    stackFree := hmove.stackFree hs
    stackHeld := hmove.stackHeld hs }

theorem Reachable.ownership {s : State cfg} (h : Reachable s) : Ownership s :=
  Reaches.invariant h initial_ownership fun _ _ _ _ hs hstep => hs.step hstep

theorem step_pop {s : State cfg} {cmd : Pointer} {rest : List Pointer} (hpc : s.worker = .popping)
    (hq : s.returnedBuffers = cmd :: rest) :
    step s .worker = some { s with returnedBuffers := rest, worker := .inspecting cmd } := by
  simp only [step,workerThread,hpc,hq]

theorem step_push {s : State cfg} {cmd : Pointer} (hpc : s.worker = .pushing cmd)
    (hroom : s.preparedBuffers.length < cfg.mixahead) :
    step s .worker = some { s with preparedBuffers := s.preparedBuffers ++ [cmd], worker := .counting } := by
  simp only [step,workerThread,hpc,push,if_pos hroom]

theorem step_release {s : State cfg} {w : WriteCall α} {buff : Pointer} {n : ℕ} (hpc : s.io = .releasing w buff n)
    (hroom : s.returnedBuffers.length < cfg.mixahead) :
    step s .io = some { s with returnedBuffers := s.returnedBuffers ++ [buff], io := .signalling w n } := by
  simp only [step,ioThread,hpc,push,if_pos hroom]

/-- Every buffer is in exactly one place and the semaphore counts the signalled
entries of `returned_buffers`, whatever the interleaving, until the destructor
drains the queues. The worker's pop, its push and the push of `releaseBuffer` succeed
at the first try, and the worker is blocked only when there is nothing for it but what
is about to be signalled. -/
theorem buffers_owned {s : State cfg} (h : Reachable s) (hdrain : s.owner.draining = false) :
    (∀ i < s.allocated, s.owner.hands.count (.heap i)+s.returnedBuffers.count (.heap i)+
      s.worker.hands.count (.heap i)+s.preparedBuffers.count (.heap i)+
      (s.io.hands s.currentBuffer).count (.heap i) = 1) ∧
    (s.owner.constructing = false → s.allocated = cfg.mixahead ∧ s.owner.hands = []) ∧
    s.semaphore+s.worker.granted ≤ s.returnedBuffers.length ∧
    s.semaphore+s.worker.granted+(s.owner.pendingSignals cfg.mixahead+s.io.pendingSignals) =
      s.returnedBuffers.length ∧
    (s.worker = .popping → ∃ cmd rest t, s.returnedBuffers = cmd :: rest ∧ step s .worker = some t ∧
      t.returnedBuffers = rest ∧ t.worker = .inspecting cmd) ∧
    (∀ cmd, s.worker = .pushing cmd → ∃ t, step s .worker = some t ∧
      t.preparedBuffers = s.preparedBuffers ++ [cmd] ∧ t.worker = .counting) ∧
    (∀ w buff n, s.io = .releasing w buff n → s.owner.stopQueued = false → ∃ t, step s .io = some t ∧
      t.returnedBuffers = s.returnedBuffers ++ [buff] ∧ t.io = .signalling w n) ∧
    (s.worker = .waiting → step s .worker = none →
      (s.returnedBuffers.filter (· ≠ .stack)).length ≤ s.io.pendingSignals) := by
  have hs := h.ownership
  have hsem := hs.semaphore hdrain
  refine ⟨fun i hi => ?_,fun hbuilt => ?_,by omega,by omega,fun hpc => ?_,fun cmd hpc => ?_,
    fun w buff n hpc hqueued => ?_,fun hpc hblocked => ?_⟩
  · have hone := hs.count_heap hi
    simpa [hs.undisposed hdrain] using hone
  · have hall := hs.allocated
    cases ho : s.owner <;> simp_all
  · obtain ⟨cmd,rest,hq⟩ := List.exists_cons_of_ne_nil (hs.popping_ne_nil hpc hdrain)
    exact ⟨cmd,rest,_,hq,step_pop hpc hq,rfl,rfl⟩
  · exact ⟨_,step_push hpc (hs.pushing_room hpc),rfl,rfl⟩
  · exact ⟨_,step_release hpc (hs.releasing_room hpc hqueued),rfl,rfl⟩
  · have hzero : s.semaphore = 0 := by
      by_contra hne
      simp [step,workerThread,hpc,Nat.pos_of_ne_zero hne] at hblocked
    exact hs.blocked_filter_le hpc hzero hdrain

/-- The constructed worker, let through by the semaphore: its one buffer is queued
and its pop succeeds. -/
theorem buffers_owned_at_pop : ∃ s t : State counting, Reachable s ∧ s.worker = .popping ∧
    s.returnedBuffers = [.heap 0] ∧ step s .worker = some t ∧ t.returnedBuffers = [] ∧ t.worker = .inspecting (.heap 0) := by
  have hrun : (run step (initial counting) (construct ++ [.worker])).isSome := rfl
  have hreach : Reachable ((run step (initial counting) (construct ++ [.worker])).get hrun) :=
    reachable_of_run (Option.some_get hrun).symm
  obtain ⟨cmd,rest,t,hq,hstep,hrest,hworker⟩ := (buffers_owned hreach rfl).2.2.2.2.1 rfl
  obtain ⟨rfl,rfl⟩ := List.cons.inj hq
  exact ⟨_,t,hreach,rfl,rfl,hstep,hrest,hworker⟩

end OutputWorkerThread
end AudioOutput
