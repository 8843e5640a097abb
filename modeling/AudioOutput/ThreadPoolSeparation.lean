import AudioOutput.ThreadPoolBarriers

/-!
# Barriers separate and do not deadlock

Once a job of a later epoch has begun, the barrier before it has been released, so
every line is past that barrier and nothing of an earlier epoch is left. A worker
that waits is waiting for one that is behind it, and the one that is furthest behind
can go on.
-/

namespace AudioOutput
namespace ThreadPool

open Transition

universe u
variable {X R : Type u}

def jobWeight : Weight X (Multiset (Job X)) where
  item item := item.job?.toList
  rest j _ := {j}
  job _ := rfl
  barrier _ := rfl
  poison := rfl

theorem jobWeight_items (items : List (Item X)) : jobWeight.items items = (items.filterMap Item.job? : Multiset (Job X)) := by
  induction items with
  | nil => rfl
  | cons item items ih =>
    rw [Weight.items_cons,ih,List.filterMap_cons]
    cases item with
    | job j => rfl
    | barrier b => exact zero_add _
    | poison => exact zero_add _

def JobsKept (s : State X R) : Prop := (s.finished : Multiset (Job X))+todo jobWeight s = s.jobs

theorem JobsKept.step {s t : State X R} {a : Action X R} (hs : JobsKept s) (hpool : PoolInv s) (hmove : Move s a t) :
    JobsKept t := by
  rw [JobsKept] at hs ⊢
  have hrun (q : Request X) (ha : a = .request q) : s.running = true := by
    subst ha
    cases hmove with
    | request hpc hrun hplan => exact hrun
  cases hmove.work jobWeight hpool with
  | @request q r hplan htodo =>
    have hjobs : (s.accept q r).jobs = s.jobs ++ (q.items s).filterMap Item.job? := by
      rw [← (plan_spec hpool.pointer (hpool.running (hrun q rfl)) hplan).items]
      rfl
    rw [htodo,hjobs,← Multiset.coe_add,← hs,jobWeight_items,← add_assoc]
    rfl
  | call hpc ht htodo htodo' =>
    have hfinished : t.finished = s.finished := by rw [ht]; rfl
    have hjobs : t.jobs = s.jobs := by rw [ht]; rfl
    rw [htodo',hfinished,hjobs,← hs,htodo]
    rfl
  | @finish i j result batch m t hpc ht htodo htodo' =>
    have hfinished : t.finished = s.finished ++ [j] := by rw [ht]; rfl
    have hjobs : t.jobs = s.jobs := by rw [ht]; rfl
    rw [htodo',hfinished,hjobs,← hs,htodo,← Multiset.coe_add,add_assoc,add_comm m]
    rfl
  | other ha hsame htodo => rw [htodo,hsame.finished,hsame.jobs,hs]

theorem mem_todo_jobWeight {s : State X R} {j : Job X} (h : j ∈ todo jobWeight s) : ∃ i < s.queueCount,
    .job j ∈ line s i ∨ ∃ x, (s.worker i).underWay = some x ∧ x.1 = j := by
  obtain ⟨i,hi,hload⟩ := Multiset.mem_sum.mp h
  refine ⟨i,Finset.mem_range.mp hi,?_⟩
  rcases Multiset.mem_add.mp hload with hrest | hline
  · cases hx : (s.worker i).underWay with
    | none => simp [WorkerPc.rest,hx] at hrest
    | some x =>
      rw [WorkerPc.rest,hx] at hrest
      exact Or.inr ⟨x,rfl,(Multiset.mem_singleton.mp hrest).symm⟩
  · rw [jobWeight_items,Multiset.mem_coe,List.mem_filterMap] at hline
    obtain ⟨item,hitem,hjob⟩ := hline
    cases item with
    | job j' =>
      cases hjob
      exact Or.inl hitem
    | barrier b => cases hjob
    | poison => cases hjob

/-- A released barrier is behind every worker. -/
theorem BarrierInv.lt_passed {s : State X R} (h : BarrierInv s) {b i : ℕ} (hb : s.released b = true) (hi : i < s.queueCount) :
    b < passed s i := by
  obtain ⟨hlt,hfull⟩ := h.released b hb
  have hcounted := h.counted b hlt
  have hnone : behind s b = 0 := by omega
  by_contra hnot
  have hone := Finset.sum_eq_zero_iff.mp hnone i (Finset.mem_range.mpr hi)
  rw [if_pos (by omega)] at hone
  cases hone

/-- What was put into the queues before barrier `b` has finished when anything from after
it begins. -/
theorem finished_before {s : State X R} (h : BarrierInv s) (hkept : JobsKept s) {b : ℕ} {j : Job X} (hj : j ∈ s.begun)
    (hb : b < j.epoch) : (s.finished.filter (·.epoch ≤ b)).Perm (s.jobs.filter (·.epoch ≤ b)) := by
  have hreleased := h.begun j hj b hb
  have hlater : (todo jobWeight s).filter (·.epoch ≤ b) = 0 := by
    rw [Multiset.filter_eq_nil]
    intro j' hj'
    obtain ⟨i,hi,hline | ⟨x,hx,rfl⟩⟩ := mem_todo_jobWeight hj'
    · have hpassed := h.lt_passed hreleased hi
      have hle := (h.follows i hi).epoch_le hline
      omega
    · have hpassed := h.lt_passed hreleased hi
      have hepoch := h.running i hi x hx
      omega
  rw [← Multiset.coe_eq_coe,← Multiset.filter_coe,← Multiset.filter_coe,← hkept,Multiset.filter_add,hlater,add_zero]

/-- Nobody sleeps on a barrier, since only `enqueue` puts one into a queue; and only the
barrier submitted last can still be on its way there. -/
structure SleepersInv (s : State X R) : Prop where
  asleep : ∀ i, s.worker i = .asleep → ∀ b, .barrier b ∉ (s.queue i).items
  ranges : ∀ puts, s.submitter = .submitting puts → ∀ i items, Put.enqueueRange i items ∈ puts → ∀ b, .barrier b ∉ items
  pending : ∀ i b, .barrier b ∈ s.submitter.pending i → b+1 = s.barriers

theorem initial_sleepersInv (n : ℕ) : SleepersInv (initial X R n) := by
  constructor <;> simp [initial,SubmitterPc.pending]

/-- Only a worker that finds its queue empty goes to sleep. -/
theorem Move.asleep {s t : State X R} {a : Action X R} {i : ℕ} (h : Move s a t) (ha : a.worker? = some i)
    (hpc : t.worker i = .asleep) : (t.queue i).items = [] := by
  cases h <;> cases ha
  case sleep _ hempty => exact hempty
  case beginBarrier b batch _ =>
    by_cases hlast : s.counter b+1 = s.goal b <;> simp [State.setWorker,hlast] at hpc
  all_goals simp [State.setWorker,finishJob] at hpc

theorem WorkerPc.notify_ne_asleep (pc : WorkerPc X R) : pc.notify ≠ .asleep := by
  cases pc <;> simp [WorkerPc.notify]

theorem SleepersInv.worker {s t : State X R} {a : Action X R} {i : ℕ} (h : SleepersInv s) (hmove : Move s a t)
    (ha : a.worker? = some i) : SleepersInv t := by
  have hlocal := hmove.local ha
  have hbarriers : t.barriers = s.barriers := by cases hmove <;> first | rfl | cases ha
  have hempty (hpc : t.worker i = .asleep) : (t.queue i).items = [] := hmove.asleep ha hpc
  refine ⟨fun k hk b => ?_,?_,?_⟩
  · by_cases hki : k = i
    · subst hki
      simp [hempty hk]
    · rw [hlocal.queue k hki]
      rw [hlocal.worker k hki] at hk
      exact h.asleep k hk b
  · rw [hlocal.submitter]
    exact h.ranges
  · rw [hlocal.submitter,hbarriers]
    exact h.pending

theorem SleepersInv.put {s : State X R} (h : SleepersInv s) {p : Put X} {pc : SubmitterPc X}
    (hrange : ∀ i items, p = .enqueueRange i items → ∀ b, .barrier b ∉ items)
    (hranges : ∀ puts, pc = .submitting puts → ∀ i items, Put.enqueueRange i items ∈ puts → ∀ b, .barrier b ∉ items)
    (hpending : ∀ i b, .barrier b ∈ pc.pending i → b+1 = s.barriers) : SleepersInv { p.apply s with submitter := pc } := by
  refine ⟨fun k hk b => ?_,hranges,?_⟩
  · cases p with
    | enqueue i item =>
      by_cases hki : k = i
      · simp only [Put.apply,hki,Function.update_self] at hk
        exact absurd hk (WorkerPc.notify_ne_asleep _)
      · simp only [Put.apply,Function.update_of_ne hki] at hk ⊢
        exact h.asleep k hk b
    | enqueueRange i items =>
      simp only [Put.apply_queue,List.mem_append,not_or]
      refine ⟨h.asleep k hk b,?_⟩
      split
      · exact hrange i items rfl b
      · exact List.not_mem_nil
  · rw [(Unchanged.put s p pc).barriers]
    exact hpending

/-- No range has a barrier in it, and a barrier submitted is the last one. -/
theorem SleepersInv.accept {s : State X R} (h : SleepersInv s) (hpool : PoolInv s) {q : Request X}
    {r : (List (Put X) × ℕ) × List (Call X) × ℕ} (hrun : s.running = true) (hplan : plan s q = some r) :
    SleepersInv (s.accept q r) := by
  have hitems := (plan_spec hpool.pointer (hpool.running hrun) hplan).items
  refine ⟨h.asleep,?_,fun i b hb => ?_⟩
  · intro puts hputs i items hmem b hb
    cases hputs
    have hitem : .barrier b ∈ q.items s := by
      rw [← hitems]
      exact List.mem_flatMap.mpr ⟨_,hmem,hb⟩
    rcases Request.items_kind hitem with ⟨j,hj,-⟩ | ⟨rfl,-⟩
    · cases hj
    · cases hplan
      simp only [submitBarrier,submitJobRange_replicate hpool.pointer] at hmem
      simp at hmem
  · have hmem := mem_itemsFor hb
    rw [hitems] at hmem
    rcases Request.items_kind hmem with ⟨j,hj,-⟩ | ⟨rfl,heq⟩
    · cases hj
    · cases heq
      rfl

theorem SleepersInv.of_pc {s t : State X R} (h : SleepersInv s)
    (hasleep : ∀ i, t.worker i = .asleep → s.worker i = .asleep ∧ (t.queue i = s.queue i ∨ (t.queue i).items = []))
    (hsubmitting : ∀ puts, t.submitter ≠ .submitting puts) (hpending : ∀ i b, .barrier b ∉ t.submitter.pending i) :
    SleepersInv t where
  asleep i hi b := by
    obtain ⟨hs,hqueue | hqueue⟩ := hasleep i hi
    · rw [hqueue]
      exact h.asleep i hs b
    · simp [hqueue]
  ranges puts hputs := absurd hputs (hsubmitting puts)
  pending i b hb := absurd hb (hpending i b)

theorem poisoning_pending (k : ℕ) (restart : Option ℕ) (i b : ℕ) :
    (.barrier b : Item X) ∉ (SubmitterPc.poisoning k restart : SubmitterPc X).pending i := by
  by_cases hki : k ≤ i <;> simp [SubmitterPc.pending,hki]

theorem SleepersInv.submitter {s t : State X R} (h : SleepersInv s) (hmove : Move s .submitter t) : SleepersInv t := by
  cases hmove
  case submitted hpc => exact h.of_pc (fun _ hi => ⟨hi,Or.inl rfl⟩) (by simp) (by simp [SubmitterPc.pending])
  case put p rest hpc =>
    refine h.put (fun i items hp => ?_) (fun puts hputs i items hmem => ?_) fun i b hb => ?_
    · exact h.ranges _ hpc i items (by simp [hp])
    · cases hputs
      exact h.ranges _ hpc i items (List.mem_cons_of_mem _ hmem)
    · refine h.pending i b ?_
      rw [hpc]
      simp only [SubmitterPc.pending,itemsFor_cons,List.mem_append]
      exact Or.inr hb
  case poison k restart hpc hlt =>
    exact h.put (by simp) (by simp) fun i b hb => absurd hb (poisoning_pending (k+1) restart i b)
  case poisoned hpc hge => exact h.of_pc (fun _ hi => ⟨hi,Or.inl rfl⟩) (by simp) (by simp [SubmitterPc.pending])
  case join hpc hlt hreturned => exact h.of_pc (fun _ hi => ⟨hi,Or.inl rfl⟩) (by simp) (by simp [SubmitterPc.pending])
  case joined hpc hge => exact h.of_pc (fun _ hi => ⟨hi,Or.inl rfl⟩) (by simp) (by simp [SubmitterPc.pending])
  case clear restart hpc =>
    refine h.of_pc (fun _ hi => by cases hi) ?_ ?_ <;> cases restart <;> simp [afterStop,SubmitterPc.pending]
  case create hpc => exact h.of_pc (fun _ hi => ⟨hi,Or.inr rfl⟩) (by simp) (by simp [SubmitterPc.pending])
  case spawn k hpc hlt =>
    refine h.of_pc (fun i hi => ?_) (by simp) (by simp [SubmitterPc.pending])
    by_cases hik : i = k
    · simp [hik] at hi
    · simp only [Function.update_of_ne hik] at hi
      exact ⟨hi,Or.inl rfl⟩
  case spawned hpc hge => exact h.of_pc (fun _ hi => ⟨hi,Or.inl rfl⟩) (by simp) (by simp [SubmitterPc.pending])

theorem SleepersInv.step {s t : State X R} {a : Action X R} (h : SleepersInv s) (hpool : PoolInv s) (hmove : Move s a t) :
    SleepersInv t := by
  cases a with
  | request q =>
    cases hmove with
    | request hpc hrun hplan => exact h.accept hpool hrun hplan
  | start =>
    cases hmove with
    | start hpc hrun => exact h.of_pc (fun _ hi => ⟨hi,Or.inl rfl⟩) (by simp) (by simp [SubmitterPc.pending])
  | stop =>
    cases hmove with
    | stop hpc => exact h.of_pc (fun _ hi => ⟨hi,Or.inl rfl⟩) (by simp) (poisoning_pending 0 none)
  | setThreadCount n =>
    cases hmove with
    | restart hpc hn hrun => exact h.of_pc (fun _ hi => ⟨hi,Or.inl rfl⟩) (by simp) (poisoning_pending 0 (some n))
    | setThreadCount hpc hn hrun => exact ⟨h.asleep,h.ranges,h.pending⟩
  | submitter => exact h.submitter hmove
  | worker i => exact h.worker hmove rfl
  | call i r => exact h.worker hmove rfl
  | spurious i => exact h.worker hmove rfl

def CanStep (s : State X R) (i : ℕ) : Prop := (step s (.worker i)).isSome ∨ ∃ r, (step s (.call i r)).isSome

def Active (s : State X R) (i : ℕ) : Prop :=
  match s.worker i with
  | .fetching | .woken => (s.queue i).items ≠ []
  | .looping _ | .running _ _ _ _ | .releasing _ _ => True
  | .waiting b _ => s.released b = true
  | _ => False

theorem Active.canStep [Nonempty R] {s : State X R} {i : ℕ} (h : Active s i) : CanStep s i := by
  unfold Active at h
  split at h
  case h_1 hpc | h_2 hpc | h_5 hpc => exact Or.inl (by simp [step,workerThread,hpc])
  case h_3 batch hpc => exact Or.inl (by cases batch <;> simp [step,workerThread,hpc])
  case h_4 left _ _ hpc =>
    cases left with
    | nil => exact Or.inl (by simp [step,workerThread,hpc])
    | cons c left =>
      obtain ⟨r⟩ := ‹Nonempty R›
      exact Or.inr ⟨r,by simp [step,callOnce,hpc]⟩
  case h_6 hpc => exact Or.inl (by simp [step,workerThread,hpc,h])
  case h_7 => exact h.elim

/-- A worker with a barrier in front of it, fetched or in its queue, is active or waits in
an earlier one. -/
theorem behind_active {s : State X R} (hpool : PoolInv s) (hsleep : SleepersInv s) {b k : ℕ}
    (hk : k < s.queueCount) (hmem : .barrier b ∈ line s k) (hpending : .barrier b ∉ s.submitter.pending k) :
    Active s k ∨ ∃ c batch, s.worker k = .waiting c batch := by
  have hplaced : .barrier b ∈ (s.worker k).batch ++ (s.queue k).items := (List.mem_append.mp hmem).resolve_right hpending
  cases hpc : s.worker k with
  | unstarted =>
    -- while threads are being started all lines are empty
    have hthreads := (hpool.unstarted k).mp hpc
    rw [hpool.threads] at hthreads
    cases hsub : s.submitter with
    | spawning m =>
      rw [(hpool.spawning m hsub).2.2 k] at hmem
      cases hmem
    | _ => simp only [hsub,SubmitterPc.threads] at hthreads; omega
  | fetching | woken =>
    rw [hpc] at hplaced
    have hne : (s.queue k).items ≠ [] := List.ne_nil_of_mem hplaced
    exact Or.inl (by simpa [Active,hpc] using hne)
  | asleep =>
    rw [hpc] at hplaced
    exact absurd hplaced (hsleep.asleep k hpc b)
  | looping batch => exact Or.inl (by simp [Active,hpc])
  | running j left result batch => exact Or.inl (by simp [Active,hpc])
  | releasing c batch => exact Or.inl (by simp [Active,hpc])
  | waiting c batch => exact Or.inr ⟨c,batch,rfl⟩
  | returned =>
    rw [(hpool.line_returned hk hpc).2] at hmem
    cases hmem

/-- Whoever waits, somebody is active: the worker furthest behind is not waiting. -/
theorem waiting_active {s : State X R} (hpool : PoolInv s) (hbar : BarrierInv s) (hsleep : SleepersInv s)
    {b : ℕ} (hpending : ∀ k, .barrier b ∉ s.submitter.pending k) {i : ℕ} {batch : List (Item X)}
    (hpc : s.worker i = .waiting b batch) : ∃ k, Active s k := by
  induction b using Nat.strong_induction_on generalizing i batch with
  | _ b ih =>
    have hi : i < s.queueCount := hpool.started (by simp [hpc])
    have hpassed := hbar.inside i hi b (by rw [hpc]; rfl)
    have hlength := (hbar.follows i hi).length
    have hlt : b < s.barriers := by omega
    by_cases hreleased : s.released b = true
    · exact ⟨i,by simpa [Active,hpc] using hreleased⟩
    by_cases hfull : s.counter b = s.goal b
    · obtain ⟨k,hk⟩ := (hbar.complete b hlt hfull).resolve_left hreleased
      cases hpc' : s.worker k with
      | releasing c batch => exact ⟨k,by simp [Active,hpc']⟩
      | _ => simp [hpc',WorkerPc.releases] at hk
    -- somebody has not begun this barrier
    · have hcounted := hbar.counted b hlt
      have hsome : behind s b ≠ 0 := by omega
      obtain ⟨k,hk,hone⟩ := Finset.exists_ne_zero_of_sum_ne_zero hsome
      have hk := Finset.mem_range.mp hk
      have hle : passed s k ≤ b := by
        by_contra hnot
        simp [hnot] at hone
      have hmem : .barrier b ∈ line s k := (hbar.follows k hk).barrier_mem.mpr ⟨hle,hlt⟩
      rcases behind_active hpool hsleep hk hmem (hpending k) with hactive | ⟨c,batch',hpc'⟩
      · exact ⟨k,hactive⟩
      · have hearlier := hbar.inside k hk c (by rw [hpc']; rfl)
        refine ih c (by omega) (fun m hm => ?_) hpc'
        have hlast := hsleep.pending m c hm
        omega

theorem waiting_progress [Nonempty R] {s : State X R} (hpool : PoolInv s) (hbar : BarrierInv s) (hsleep : SleepersInv s)
    {b : ℕ} (hpending : ∀ k, .barrier b ∉ s.submitter.pending k) {i : ℕ} {batch : List (Item X)}
    (hpc : s.worker i = .waiting b batch) : ∃ k, CanStep s k := by
  obtain ⟨k,hk⟩ := waiting_active hpool hbar hsleep hpending hpc
  exact ⟨k,hk.canStep⟩

/-- Barriers: one copy in every queue, everything before one has finished when something
after it begins, and nobody waits in one forever. -/
theorem barriers_separate [Nonempty R] {n : ℕ} (hn : 0 < n) {s : State X R} (h : Reachable n s) :
    (∀ t, step s (.request .submitBarrier) = some t → ∃ puts, t.submitter = .submitting puts ∧
      (∀ p ∈ puts, p.index < t.queueCount) ∧
      ∀ i < t.queueCount, puts.filter (·.index = i) = [.enqueue i (.barrier s.barriers)]) ∧
    (∀ b, ∀ j ∈ s.begun, b < j.epoch → (s.finished.filter (·.epoch ≤ b)).Perm (s.jobs.filter (·.epoch ≤ b))) ∧
    ∀ b i batch, s.worker i = .waiting b batch → (∀ k, .barrier b ∉ s.submitter.pending k) → ∃ k, CanStep s k := by
  have hinv : PoolInv s ∧ BarrierInv s ∧ SleepersInv s ∧ JobsKept s := by
    refine Reaches.invariant (I := fun u => PoolInv u ∧ BarrierInv u ∧ SleepersInv u ∧ JobsKept u) h
      ⟨initial_poolInv hn,initial_barrierInv n,initial_sleepersInv n,?_⟩ fun u a v _ hu hstep => ?_
    · simp [JobsKept,initial,todo]
    · obtain ⟨hpool,hbar,hsleep,hkept⟩ := hu
      have hmove := Move.of_step hstep
      exact ⟨hpool.step hstep,hbar.step hpool hmove,hsleep.step hpool hmove,hkept.step hpool hmove⟩
  obtain ⟨hpool,hbar,hsleep,hkept⟩ := hinv
  refine ⟨fun t hstep => ?_,fun b j hj hb => finished_before hbar hkept hj hb,
    fun b i batch hpc hpending => waiting_progress hpool hbar hsleep hpending hpc⟩
  cases Move.of_step hstep with
  | request hpc hrun hplan =>
    have hspec := plan_spec hpool.pointer (hpool.running hrun) hplan
    have hcount := hpool.running hrun
    cases hplan
    refine ⟨_,rfl,fun p hp => ?_,fun i hi => submitBarrier_covers hpool.pointer _ (hcount ▸ hi)⟩
    exact (hspec.index p hp).trans_eq hcount.symm

def barrierBetween : List (Action ℕ ℕ) :=
  [.start,.submitter,.submitter,.submitter,.submitter,.request (.submitJob 7),.submitter,.submitter,
    .request .submitBarrier,.submitter,.submitter,.submitter,.request (.submitJob 8),.submitter,.submitter,
    .worker 1,.worker 1,.worker 0,.worker 0,.call 0 70,.worker 0,.worker 0,.worker 0,.worker 1,.worker 1]

theorem barriers_separate_barrierBetween : ∃ s, run step (initial ℕ ℕ 2) barrierBetween = some s ∧
    s.begun = [⟨.single 7,none,0⟩,⟨.single 8,none,1⟩] ∧
    (s.finished.filter (·.epoch ≤ 0)).Perm (s.jobs.filter (·.epoch ≤ 0)) := by
  have hrun : (run step (initial ℕ ℕ 2) barrierBetween).isSome := rfl
  have hreach : Reachable 2 ((run step (initial ℕ ℕ 2) barrierBetween).get hrun) :=
    Reaches.of_run (fun _ _ => trivial) (Option.some_get hrun).symm
  have hbegun : ((run step (initial ℕ ℕ 2) barrierBetween).get hrun).begun = [⟨.single 7,none,0⟩,⟨.single 8,none,1⟩] := rfl
  exact ⟨_,(Option.some_get hrun).symm,hbegun,
    (barriers_separate (by decide) hreach).2.1 0 ⟨.single 8,none,1⟩ (by rw [hbegun]; simp) (by decide)⟩

end ThreadPool
end AudioOutput
