import AudioOutput.ThreadPoolJobs
import AudioOutput.ThreadPoolSeparation

/-!
# The thread pool comes to rest

While nobody asks for anything new, the operation under way ends, `stop` included, and
the workers go through all that is in front of them, barriers and poison alike. Sleeping
and waking up for nothing may go on forever; every other step leaves less to do.
-/

namespace AudioOutput
namespace ThreadPool

open Transition
open ThreadsafeQueue (Queue)

universe u
variable {X R : Type u}

def Item.cost : Item X → ℕ
  | .job j => j.calls.length+2
  | .barrier _ => 2
  | .poison => 1

def queueCost (items : List (Item X)) : ℕ := (items.map fun item => item.cost+2).sum

def batchCost (items : List (Item X)) : ℕ := (items.map Item.cost).sum

def WorkerPc.cost : WorkerPc X R → ℕ
  | .unstarted | .returned => 0
  | .fetching | .asleep | .woken => 1
  | .looping batch => batchCost batch+2
  | .running _ left _ batch => batchCost batch+left.length+3
  | .releasing _ batch | .waiting _ batch => batchCost batch+3

def queued (s : State X R) (i : ℕ) : List (Item X) := (s.queue i).items ++ s.submitter.pending i

def effort (s : State X R) (i : ℕ) : ℕ := (s.worker i).cost+queueCost (queued s i)

/-- From `clearing` on; `setThreadCount` goes on with `start`. -/
def restartCost : Option ℕ → ℕ
  | none => 1
  | some n => 2*n+3

def operationCost (s : State X R) : ℕ :=
  match s.submitter with
  | .idle => 0
  | .submitting puts => puts.length+1
  | .poisoning i restart => s.queueCount-i+(s.threads+1)+restartCost restart+1
  | .joining i restart => s.threads-i+restartCost restart+1
  | .clearing restart => restartCost restart
  | .creating => 2*s.threadCount+2
  | .spawning i => 2*(s.threadCount-i)+1

def remaining (s : State X R) : ℕ := operationCost s+∑ i ∈ Finset.range s.queueCount, effort s i

@[simp] theorem queueCost_append (as bs : List (Item X)) : queueCost (as ++ bs) = queueCost as+queueCost bs := by
  simp [queueCost]

@[simp] theorem batchCost_cons (item : Item X) (items : List (Item X)) :
    batchCost (item :: items) = item.cost+batchCost items := by
  simp [batchCost]

theorem batchCost_add (items : List (Item X)) : batchCost items+2*items.length = queueCost items := by
  induction items with
  | nil => rfl
  | cons item items ih =>
    simp only [queueCost,batchCost,List.map_cons,List.sum_cons,List.length_cons] at ih ⊢
    omega

@[simp] theorem WorkerPc.cost_notify (pc : WorkerPc X R) : pc.notify.cost = pc.cost := by cases pc <;> rfl

theorem Put.cost_apply (s : State X R) (p : Put X) (i : ℕ) : ((p.apply s).worker i).cost = (s.worker i).cost := by
  rcases p.apply_worker s i with h | h <;> simp [h]

inductive Rests (s : State X R) : Action X R → State X R → Prop
  | sleep {i : ℕ} (hpc : s.worker i = .fetching ∨ s.worker i = .woken) (hempty : (s.queue i).items = []) :
      Rests s (.worker i) (s.setWorker i .asleep)
  | wake {i : ℕ} (hpc : s.worker i = .asleep) : Rests s (.spurious i) (s.setWorker i .woken)

variable {s t : State X R} {a : Action X R} {i : ℕ}

theorem Local.operationCost (h : Local i s t) : operationCost t = operationCost s := by
  unfold ThreadPool.operationCost
  rw [h.submitter,h.queueCount,h.threads,h.threadCount]

theorem Local.effort (h : Local i s t) {k : ℕ} (hk : k ≠ i) : effort t k = effort s k := by
  rw [ThreadPool.effort,ThreadPool.effort,queued,queued,h.worker k hk,h.queue k hk,h.submitter]

theorem Local.remaining_lt (h : Local i s t) (hi : i < s.queueCount) (hlt : ThreadPool.effort t i < ThreadPool.effort s i) :
    remaining t < remaining s := by
  rw [remaining,remaining,h.operationCost,h.queueCount]
  refine Nat.add_lt_add_left (Finset.sum_lt_sum (fun k _ => ?_) ⟨i,Finset.mem_range.mpr hi,hlt⟩) _
  by_cases hk : k = i
  · exact hk ▸ hlt.le
  · exact (h.effort hk).le

/-- A worker's step leaves it less to do, unless it had nothing to do. -/
theorem Move.effort_lt (h : Move s a t) (ha : a.worker? = some i) : Rests s a t ∨ effort t i < effort s i := by
  have hpending : t.submitter = s.submitter := (h.local ha).submitter
  have heffort (hqueue : t.queue = s.queue) (hlt : (t.worker i).cost < (s.worker i).cost) : effort t i < effort s i := by
    rw [effort,effort,queued,queued,hqueue,hpending]
    omega
  cases h <;> cases ha
  case sleep hpc hempty => exact Or.inl (.sleep hpc hempty)
  case spurious hpc => exact Or.inl (.wake hpc)
  case fetch hpc hne =>
    have hcost : (s.worker i).cost = 1 := by rcases hpc with hpc | hpc <;> rw [hpc] <;> rfl
    have hsplit := (s.queue i).takeUpTo_append 5
    have hbatch := batchCost_add ((s.queue i).takeUpTo 5).1
    have hsome : 0 < ((s.queue i).takeUpTo 5).1.length := by
      rw [Queue.takeUpTo_fst,List.length_take]
      have := List.length_pos_of_ne_nil hne
      omega
    refine Or.inr ?_
    rw [effort,effort,queued,queued,hcost,← hsplit]
    simp only [State.setWorker,Function.update_self,WorkerPc.cost,queueCost_append]
    omega
  case refetch hpc => exact Or.inr (heffort rfl (by simp [State.setWorker,hpc,WorkerPc.cost]))
  case beginJob hpc =>
    refine Or.inr (heffort rfl ?_)
    simp only [State.setWorker,Function.update_self,hpc,WorkerPc.cost,batchCost_cons,Item.cost]
    omega
  case beginBarrier b batch hpc =>
    refine Or.inr (heffort rfl ?_)
    have hcost : (s.worker i).cost = 2+batchCost batch+2 := by simp only [hpc,WorkerPc.cost,batchCost_cons,Item.cost]
    rw [hcost]
    by_cases hlast : s.counter b+1 = s.goal b <;> simp only [State.setWorker,Function.update_self,hlast,if_true,if_false,WorkerPc.cost]
      <;> omega
  case exit hpc => exact Or.inr (heffort rfl (by simp [State.setWorker,hpc,WorkerPc.cost]))
  case finish hpc => exact Or.inr (heffort rfl (by simp [finishJob,State.setWorker,hpc,WorkerPc.cost]))
  case release hpc => exact Or.inr (heffort rfl (by simp [State.setWorker,hpc,WorkerPc.cost]))
  case pass hreleased hpc => exact Or.inr (heffort rfl (by simp [State.setWorker,hpc,WorkerPc.cost]))
  case call hpc =>
    refine Or.inr (heffort rfl ?_)
    simp only [State.setWorker,Function.update_self,hpc,WorkerPc.cost,List.length_cons]
    omega

theorem remaining_lt (hcount : t.queueCount = s.queueCount) (heffort : ∀ k < s.queueCount, effort t k ≤ effort s k)
    (hcost : operationCost t < operationCost s) : remaining t < remaining s := by
  rw [remaining,remaining,hcount]
  exact Nat.add_lt_add_of_lt_of_le hcost (Finset.sum_le_sum fun k hk => heffort k (Finset.mem_range.mp hk))

theorem effort_put {p : Put X} {pc : SubmitterPc X} (k : ℕ)
    (hpending : s.submitter.pending k = (if p.index = k then p.items else []) ++ pc.pending k) :
    effort { p.apply s with submitter := pc } k = effort s k := by
  have hqueued : queued { p.apply s with submitter := pc } k = queued s k := by
    simp only [queued,hpending,Put.apply_queue,List.append_assoc]
  rw [effort,effort,hqueued]
  exact congrArg (·+_) (p.cost_apply s k)

theorem effort_pc {pc : SubmitterPc X} {running : Bool} (k : ℕ) (hpending : pc.pending k = s.submitter.pending k) :
    effort { s with running := running, submitter := pc } k = effort s k := by
  simp only [effort,queued,hpending]

theorem Move.submitter_lt (hpool : PoolInv s) (h : Move s .submitter t) : remaining t < remaining s := by
  cases h
  case submitted hpc =>
    refine remaining_lt rfl (fun k _ => (effort_pc k ?_).le) ?_
    · simp [hpc,SubmitterPc.pending,itemsFor]
    · simp [operationCost,hpc]
  case put p rest hpc =>
    refine remaining_lt (p.apply_control s).queueCount (fun k _ => (effort_put k ?_).le) ?_
    · rw [hpc,SubmitterPc.pending,itemsFor_cons]
      rfl
    · simp [operationCost,hpc]
  case poison i restart hpc hlt =>
    refine remaining_lt rfl (fun k _ => (effort_put k ?_).le) ?_
    · rw [hpc]
      simp only [SubmitterPc.pending,Put.index,Put.items]
      by_cases hk : i = k
      · simp [hk]
      · have hiff : i+1 ≤ k ↔ i ≤ k := by omega
        simp [hk,hiff]
    · simp only [operationCost,hpc,Put.apply]
      omega
  case poisoned i restart hpc hge =>
    refine remaining_lt rfl (fun k hk => (effort_pc k ?_).le) ?_
    · have hik : ¬ i ≤ k := by omega
      simp [hpc,SubmitterPc.pending,hik]
    · simp only [operationCost,hpc]
      omega
  case join i restart hpc hlt hreturned =>
    refine remaining_lt rfl (fun k _ => (effort_pc k ?_).le) ?_
    · simp [hpc,SubmitterPc.pending]
    · simp only [operationCost,hpc]
      omega
  case joined i restart hpc hge =>
    refine remaining_lt rfl (fun k _ => (effort_pc k ?_).le) ?_
    · simp [hpc,SubmitterPc.pending]
    · simp only [operationCost,hpc]
      omega
  case clear restart hpc =>
    rw [remaining,remaining]
    cases restart with
    | none => simp [operationCost,hpc,afterStop,restartCost]
    | some n =>
      simp only [operationCost,hpc,afterStop,restartCost,Option.getD_some,Finset.range_zero,Finset.sum_empty]
      omega
  case create hpc =>
    have hzero := (hpool.creating hpc).1
    have hidle (k : ℕ) : effort { s with
        running := true, queueCount := s.threadCount, queue := fun _ => {}, submitter := .spawning 0 } k = 0 := by
      simp [effort,queued,hpool.unstarted_of_empty hzero,WorkerPc.cost,SubmitterPc.pending,queueCost]
    rw [remaining,remaining,Finset.sum_eq_zero fun k _ => hidle k]
    simp only [operationCost,hpc]
    omega
  case spawn i hpc hlt =>
    have hone (k : ℕ) : effort { s with
        worker := Function.update s.worker i .fetching, threads := i+1, submitter := .spawning (i+1) } k ≤
          effort s k+if i = k then 1 else 0 := by
      by_cases hk : i = k
      · subst hk
        simp [effort,queued,hpc,SubmitterPc.pending,WorkerPc.cost]
        omega
      · simp [effort,queued,hpc,SubmitterPc.pending,Ne.symm hk,hk]
    have hsum := Finset.sum_le_sum fun k (_ : k ∈ Finset.range s.queueCount) => hone k
    rw [Finset.sum_add_distrib,Finset.sum_ite_eq] at hsum
    have hle : (if i ∈ Finset.range s.queueCount then 1 else 0) ≤ 1 := by split <;> omega
    rw [remaining,remaining]
    simp only [operationCost,hpc]
    omega
  case spawned i hpc hge =>
    refine remaining_lt rfl (fun k _ => (effort_pc k ?_).le) ?_
    · simp [hpc,SubmitterPc.pending]
    · simp only [operationCost,hpc]
      omega

def Scheduled : Action X R → Prop
  | .submitter | .worker _ | .call _ _ => True
  | _ => False

def Unasked : Action X R → Prop
  | .spurious _ => True
  | a => Scheduled a

def Helpful (s : State X R) : Action X R → Prop
  | .submitter => s.submitter ≠ .idle ∧ ∀ k restart, s.submitter = .joining k restart → k < s.threads → s.worker k = .returned
  | .worker k => Active s k ∧ ∀ j c left result batch, s.worker k ≠ .running j (c :: left) result batch
  | .call k _ => ∃ j c left result batch, s.worker k = .running j (c :: left) result batch
  | _ => False

theorem Active.helpful [Nonempty R] {k : ℕ} (h : Active s k) : ∃ a, Helpful s a := by
  by_cases hcall : ∃ j c left result batch, s.worker k = .running j (c :: left) result batch
  · obtain ⟨r⟩ := ‹Nonempty R›
    exact ⟨.call k r,hcall⟩
  · push Not at hcall
    exact ⟨.worker k,h,hcall⟩

theorem Helpful.enabled (h : Helpful s a) : Scheduled a ∧ (step s a).isSome := by
  cases a with
  | submitter =>
    obtain ⟨hidle,hjoin⟩ := h
    refine ⟨trivial,?_⟩
    simp only [step,submitterThread]
    split
    case h_1 hpc => exact absurd hpc hidle
    case h_2 | h_3 | h_6 | h_7 => rfl
    case h_4 | h_8 => split <;> rfl
    case h_5 k restart hpc =>
      split
      case isTrue hlt => rw [hjoin k restart hpc hlt]; rfl
      case isFalse => rfl
  | worker k =>
    obtain ⟨hactive,hcall⟩ := h
    refine ⟨trivial,?_⟩
    unfold Active at hactive
    simp only [step,workerThread]
    split at hactive
    case h_1 hpc | h_2 hpc | h_5 hpc => rw [hpc]; rfl
    case h_3 batch hpc => cases batch <;> rw [hpc] <;> rfl
    case h_4 left _ _ hpc =>
      cases left with
      | nil => rw [hpc]; rfl
      | cons c left => exact absurd hpc (hcall _ _ _ _ _)
    case h_6 hpc => rw [hpc]; simp [hactive]
    case h_7 => exact hactive.elim
  | call k r =>
    obtain ⟨j,c,left,result,batch,hpc⟩ := h
    refine ⟨trivial,?_⟩
    simp only [step,callOnce,hpc]
    rfl
  | _ => exact h.elim

theorem Helpful.not_rests (h : Helpful s a) : ¬ Rests s a t := by
  rintro (⟨hpc,hempty⟩ | ⟨hpc⟩)
  · have hactive := h.1
    unfold Active at hactive
    rcases hpc with hpc | hpc <;> simp [hpc,hempty] at hactive
  · exact h

theorem Move.lowers (hpool : PoolInv s) (h : Move s a t) (ha : Unasked a) : Rests s a t ∨ remaining t < remaining s := by
  have hworker {i : ℕ} (hi : a.worker? = some i) : Rests s a t ∨ remaining t < remaining s := by
    have hlocal := h.local hi
    exact (h.effort_lt hi).imp_right (hlocal.remaining_lt (hpool.started hlocal.started))
  cases a with
  | submitter => exact Or.inr (h.submitter_lt hpool)
  | worker i => exact hworker rfl
  | call i r => exact hworker rfl
  | spurious i => exact hworker rfl
  | _ => exact ha.elim

theorem Active.congr {k : ℕ} (hworker : t.worker k = s.worker k) (hqueue : t.queue k = s.queue k) (hreleased : t.released = s.released)
    (h : Active s k) : Active t k := by
  unfold Active at h ⊢
  rwa [hworker,hqueue,hreleased]

/-- A step of a worker with nothing to do changes neither the measure nor what helps. -/
theorem Rests.keeps (h : Rests s a t) : remaining t = remaining s ∧ ∀ b, Helpful s b → Helpful t b := by
  have hrest : ∃ i pc, t = s.setWorker i pc ∧ (s.worker i).cost = pc.cost ∧ ¬ Active s i ∧ s.worker i ≠ .returned ∧
      ∀ j c left result batch, s.worker i ≠ .running j (c :: left) result batch := by
    cases h with
    | @sleep i hpc hempty =>
      refine ⟨i,.asleep,rfl,?_⟩
      rcases hpc with hpc | hpc <;> simp [hpc,WorkerPc.cost,Active,hempty]
    | @wake i hpc => exact ⟨i,.woken,rfl,by simp [hpc,WorkerPc.cost,Active]⟩
  obtain ⟨i,pc,rfl,hcost,hinactive,hreturned,hcalls⟩ := hrest
  have hother {k : ℕ} (hk : k ≠ i) : (s.setWorker i pc).worker k = s.worker k := Function.update_of_ne hk _ _
  refine ⟨?_,fun b hb => ?_⟩
  · have heffort (k : ℕ) : effort (s.setWorker i pc) k = effort s k := by
      by_cases hk : k = i
      · subst hk
        simp [effort,queued,State.setWorker,hcost]
      · simp [effort,queued,State.setWorker,hk]
    simp only [remaining,heffort]
    rfl
  · cases b with
    | submitter =>
      refine ⟨hb.1,fun k restart hpc hlt => ?_⟩
      have hdone := hb.2 k restart hpc hlt
      have hk : k ≠ i := by
        rintro rfl
        exact hreturned hdone
      rw [hother hk,hdone]
    | worker k =>
      have hk : k ≠ i := by
        rintro rfl
        exact hinactive hb.1
      refine ⟨hb.1.congr (hother hk) rfl rfl,?_⟩
      rw [hother hk]
      exact hb.2
    | call k r =>
      have hk : k ≠ i := by
        rintro rfl
        obtain ⟨j,c,left,result,batch,hpc⟩ := hb
        exact hcalls _ _ _ _ _ hpc
      simp only [Helpful,hother hk]
      exact hb
    | _ => exact hb.elim

def Roused (s : State X R) : Prop := ∀ i, s.worker i = .asleep → .poison ∉ (s.queue i).items

/-- Only a range is put in front of a sleeping worker without waking it. -/
theorem Put.asleep {p : Put X} {k : ℕ} (h : (p.apply s).worker k = .asleep) {item : Item X}
    (hitem : item ∈ ((p.apply s).queue k).items) :
    s.worker k = .asleep ∧ (item ∈ (s.queue k).items ∨ ∃ items, p = .enqueueRange k items ∧ item ∈ items) := by
  rw [Put.apply_queue] at hitem
  cases p with
  | enqueue i new =>
    by_cases hk : k = i
    · simp only [Put.apply,hk,Function.update_self] at h
      exact absurd h (WorkerPc.notify_ne_asleep _)
    · simp only [Put.apply,Function.update_of_ne hk] at h
      refine ⟨h,Or.inl ?_⟩
      simpa [Put.index,Ne.symm hk] using hitem
  | enqueueRange i items =>
    refine ⟨h,?_⟩
    rcases List.mem_append.mp hitem with hold | hnew
    · exact Or.inl hold
    · by_cases hk : i = k
      · subst hk
        exact Or.inr ⟨items,rfl,by simpa [Put.index,Put.items] using hnew⟩
      · simp [Put.index,hk] at hnew

theorem Roused.put (h : Roused s) {p : Put X} {pc : SubmitterPc X} (hrange : ∀ i items, p = .enqueueRange i items → .poison ∉ items) :
    Roused { p.apply s with submitter := pc } := by
  intro k hk hmem
  obtain ⟨hasleep,hold | ⟨items,hp,hnew⟩⟩ := Put.asleep hk hmem
  · exact h k hasleep hold
  · exact hrange k items hp hnew

theorem Roused.step (h : Roused s) (hpool : PoolInv s) (hmove : Move s a t) : Roused t := by
  have hworker {i : ℕ} (hi : a.worker? = some i) : Roused t := by
    have hlocal := hmove.local hi
    intro k hk
    by_cases hki : k = i
    · subst hki
      simp [hmove.asleep hi hk]
    · rw [hlocal.queue k hki]
      exact h k (hlocal.worker k hki ▸ hk)
  cases a with
  | worker i => exact hworker rfl
  | call i r => exact hworker rfl
  | spurious i => exact hworker rfl
  | request | start | stop | setThreadCount => cases hmove <;> exact h
  | submitter =>
    cases hmove
    case submitted | poisoned | join | joined | spawned => exact h
    case put p rest hpc =>
      refine h.put fun k items hp hmem => ?_
      obtain ⟨-,hindex⟩ := hpool.submitting _ hpc
      have hline := hpool.lines k (by simpa [hp,Put.index] using hindex p List.mem_cons_self)
      rw [hpc] at hline
      refine hline.2 (List.mem_append_right _ ?_)
      rw [hpc,SubmitterPc.pending,itemsFor_cons,hp]
      simpa [Put.index,Put.items] using Or.inl hmem
    case poison => exact h.put fun _ _ hp => by cases hp
    case clear => exact fun _ hk => by cases hk
    case create => exact fun _ _ => List.not_mem_nil
    case spawn i hpc hlt =>
      intro k hk
      by_cases hki : k = i
      · simp [hki] at hk
      · exact h k (by simpa [hki] using hk)

structure RestInv (s : State X R) : Prop where
  jobs : JobsInv s
  barriers : BarrierInv s
  sleepers : SleepersInv s
  roused : Roused s

theorem initial_restInv {n : ℕ} (hn : 0 < n) : RestInv (initial X R n) where
  jobs := initial_jobsInv hn
  barriers := initial_barrierInv n
  sleepers := initial_sleepersInv n
  roused i hi := by cases hi

theorem RestInv.step (h : RestInv s) (hstep : step s a = some t) : RestInv t where
  jobs := h.jobs.step hstep
  barriers := h.barriers.step h.jobs.pool (.of_step hstep)
  sleepers := h.sleepers.step h.jobs.pool (.of_step hstep)
  roused := h.roused.step h.jobs.pool (.of_step hstep)

/-- Worker `i` is waiting for something to do. Only what was put in front of it without
waking it may be in its queue. -/
def Resting (s : State X R) (i : ℕ) : Prop :=
  (s.worker i = .fetching ∨ s.worker i = .woken) ∧ (s.queue i).items = [] ∨ s.worker i = .asleep

def AtRest (s : State X R) : Prop := s.submitter = .idle ∧ ∀ i < s.queueCount, Resting s i

/-- A worker that has been started and is not gone has something to do, or somebody else
has. -/
theorem RestInv.worker_active (h : RestInv s) (hpending : ∀ b k, .barrier b ∉ s.submitter.pending k) {i : ℕ}
    (hstarted : s.worker i ≠ .unstarted) (hlive : s.worker i ≠ .returned) : Resting s i ∨ ∃ k, Active s k := by
  cases hpc : s.worker i with
  | unstarted => exact absurd hpc hstarted
  | returned => exact absurd hpc hlive
  | asleep => exact Or.inl (Or.inr hpc)
  | fetching | woken =>
    by_cases hempty : (s.queue i).items = []
    · exact Or.inl (Or.inl ⟨by simp [hpc],hempty⟩)
    · exact Or.inr ⟨i,by simpa [Active,hpc] using hempty⟩
  | looping batch => exact Or.inr ⟨i,by simp [Active,hpc]⟩
  | running j left result batch => exact Or.inr ⟨i,by simp [Active,hpc]⟩
  | releasing b batch => exact Or.inr ⟨i,by simp [Active,hpc]⟩
  | waiting b batch => exact Or.inr (waiting_active h.jobs.pool h.barriers h.sleepers (hpending b) hpc)

/-- As long as the pool is not at rest, somebody has something to do. -/
theorem RestInv.progress [Nonempty R] (h : RestInv s) (hnot : ¬ AtRest s) : ∃ a, Helpful s a := by
  have hpool := h.jobs.pool
  by_cases hsub : Helpful s .submitter
  · exact ⟨_,hsub⟩
  have hcases : s.submitter = .idle ∨ ∃ k restart, s.submitter = .joining k restart ∧ k < s.threads ∧ s.worker k ≠ .returned := by
    by_contra hno
    push Not at hno
    exact hsub ⟨hno.1,fun k restart hpc hlt => hno.2 k restart hpc hlt⟩
  rcases hcases with hpc | ⟨k,restart,hpc,hlt,hlive⟩
  · have hpending (b i : ℕ) : .barrier b ∉ s.submitter.pending i := by simp [hpc,SubmitterPc.pending]
    obtain ⟨i,hi,hrest⟩ : ∃ i < s.queueCount, ¬ Resting s i := by
      by_contra hall
      push Not at hall
      exact hnot ⟨hpc,hall⟩
    have hthreads := hpool.threads
    rw [hpc] at hthreads
    have hstarted : s.worker i ≠ .unstarted := fun hw => by
      have := (hpool.unstarted i).mp hw
      simp only [SubmitterPc.threads] at hthreads
      omega
    have hlive : s.worker i ≠ .returned := by
      have hline := hpool.lines i hi
      rw [hpc] at hline
      exact hline.1
    obtain ⟨k,hk⟩ := (h.worker_active hpending hstarted hlive).resolve_left hrest
    exact hk.helpful
  · have hpending (b i : ℕ) : .barrier b ∉ s.submitter.pending i := by simp [hpc,SubmitterPc.pending]
    have hstarted : s.worker k ≠ .unstarted := fun hw => by
      have := (hpool.unstarted k).mp hw
      omega
    have hbusy : ¬ Resting s k := by
      -- the poison is in front of it
      have hline := hpool.lines k (hpool.started hstarted)
      rw [hpc] at hline
      obtain ⟨before,hbefore,-⟩ := (hline.resolve_left fun hdone => hlive hdone.1).2
      have hmem : .poison ∈ line s k := hbefore ▸ by simp
      have hpoison : .poison ∈ (s.worker k).batch ++ (s.queue k).items := by simpa [line,hpc,SubmitterPc.pending] using hmem
      rintro (⟨hw | hw,hempty⟩ | hw)
      · simp [hw,WorkerPc.batch,hempty] at hpoison
      · simp [hw,WorkerPc.batch,hempty] at hpoison
      · rw [hw] at hpoison
        exact h.roused k hw hpoison
    obtain ⟨i,hi⟩ := (h.worker_active hpending hstarted hlive).resolve_left hbusy
    exact hi.helpful

/-- With fair scheduling the pool comes to rest. -/
theorem RestInv.atRest [Nonempty R] (e : Execution (ThreadPool.step (X := X) (R := R)) Unasked)
    (h : RestInv (e.state 0)) (hfair : e.FairTo Scheduled) : ∃ m, AtRest (e.state m) := by
  refine e.eventually_of_helpful hfair Helpful remaining h (fun _ _ _ _ h hstep => h.step hstep)
    (fun s a t ha h _ hstep => ?_) (fun s a h _ hhelps => ?_) fun s h hnot => h.progress hnot
  · rcases (Move.of_step hstep).lowers h.jobs.pool ha with hrest | hlow
    · exact Or.inr ⟨hrest.keeps.1.le,hrest.keeps.2⟩
    · exact Or.inl hlow
  · obtain ⟨hscheduled,henabled⟩ := hhelps.enabled
    obtain ⟨t,ht⟩ := Option.isSome_iff_exists.mp henabled
    have hunasked : Unasked a := by cases a <;> trivial
    exact ⟨hscheduled,t,ht,((Move.of_step ht).lowers h.jobs.pool hunasked).resolve_left hhelps.not_rests⟩

theorem Complete.step (h : Complete s) (hinv : JobsInv s) (hfits : s.Fits a) (hstep : ThreadPool.step s a = some t) : Complete t :=
  (((Move.of_step hstep).work callWeight hinv.pool).accounted hinv.accounted).2.mpr ⟨h,hfits⟩

theorem Unasked.fits (h : Unasked a) (s : State X R) : s.Fits a := by cases a <;> trivial

/-- `stop`, or the destructor, is under way; it is not part of `setThreadCount`. -/
def State.Stopping (s : State X R) : Prop := s.submitter.stopping = true ∧ s.submitter.restart? = none

theorem State.Stopping.step (h : s.Stopping ∨ s.submitter = .idle ∧ s.running = false) (hpool : PoolInv s) (ha : Unasked a)
    (hstep : ThreadPool.step s a = some t) : t.Stopping ∨ t.submitter = .idle ∧ t.running = false := by
  have hmove := Move.of_step hstep
  have hworker {i : ℕ} (hi : a.worker? = some i) : t.Stopping ∨ t.submitter = .idle ∧ t.running = false := by
    have hlocal := hmove.local hi
    rw [State.Stopping,hlocal.submitter,hlocal.running]
    exact h
  cases a with
  | worker i => exact hworker rfl
  | call i r => exact hworker rfl
  | spurious i => exact hworker rfl
  | submitter =>
    rcases h with ⟨hstopping,hrestart⟩ | ⟨hpc,-⟩
    · cases hmove
      case poison hpc _ | poisoned hpc _ | join hpc _ _ | joined hpc _ =>
        rw [hpc] at hrestart
        exact Or.inl ⟨rfl,hrestart⟩
      case clear hpc =>
        rw [hpc] at hrestart
        obtain rfl : _ = none := hrestart
        exact Or.inr ⟨rfl,(hpool.clearing _ hpc).1⟩
      all_goals simp_all [SubmitterPc.stopping]
    · simp [ThreadPool.step,submitterThread,hpc] at hstep
  | _ => exact ha.elim

/-- What is left at rest is what nobody has been woken for. -/
theorem AtRest.todo (h : AtRest s) : todo callWeight s =
    ∑ i ∈ Finset.range s.queueCount, (((s.queue i).items.flatMap Item.calls : List (Call X)) : Multiset (Call X)) := by
  refine Finset.sum_congr rfl fun i hi => ?_
  have hidle : (s.worker i).underWay = none ∧ (s.worker i).batch = [] := by
    rcases h.2 i (Finset.mem_range.mp hi) with ⟨hpc | hpc,-⟩ | hpc <;> rw [hpc] <;> exact ⟨rfl,rfl⟩
  rw [load,WorkerPc.rest,hidle.1,line,hidle.2,h.1,← callWeight_items]
  simp [SubmitterPc.pending]

/-- From here on the pool can come to rest with every call made. -/
def Outcome.RestsLater (o : Outcome X R) : Prop := ∃ s, o = .defined s ∧ RestInv s ∧ ThreadPool.Complete s

theorem Outcome.RestsLater.step {o o' : Outcome X R} (h : o.RestsLater) (ha : o.Fits a) (hstep : execute o a = some o') :
    o'.RestsLater := by
  obtain ⟨s,rfl,hrest,hcomplete⟩ := h
  rcases execute_cases hstep with ⟨t,rfl,ht⟩ | ⟨-,q,rfl,hplan⟩
  · exact ⟨t,rfl,hrest.step ht,hcomplete.step hrest.jobs ha ht⟩
  · exact absurd ha (not_kept_of_plan hplan)

/-- Two threads have been given a job, a barrier and another job when they are stopped. -/
def stopBehindBarrier : List (Action ℕ ℕ) :=
  [.start,.submitter,.submitter,.submitter,.submitter,.request (.submitJob 7),.submitter,.submitter,
    .request .submitBarrier,.submitter,.submitter,.submitter,.request (.submitJob 8),.submitter,.submitter,.stop]

end ThreadPool
end AudioOutput
