import AudioOutput.ThreadPoolWork
import Mathlib.Data.Multiset.Basic

/-!
# Every job runs exactly once

Calls executed and calls still to do are together the calls asked for, as long as
no range is taken for empty; and every promise is either still on its way or
fulfilled. When the pool has no queues left there is nothing still to do.
-/

namespace AudioOutput
namespace ThreadPool

open Transition

universe u
variable {X R : Type u}

def callWeight : Weight X (Multiset (Call X)) where
  item item := item.calls
  rest _ left := left
  job _ := rfl
  barrier _ := rfl
  poison := rfl

theorem callWeight_items (items : List (Item X)) : callWeight.items items = (items.flatMap Item.calls : Multiset (Call X)) := by
  induction items with
  | nil => rfl
  | cons item items ih =>
    rw [Weight.items_cons,ih,List.flatMap_cons,← Multiset.coe_add]
    rfl

def accounted (s : State X R) : Multiset (Call X) := (s.executed.map Prod.fst : Multiset (Call X)) + todo callWeight s

/-- The length of the range, if one is submitted, survives as an `int`. -/
def State.Fits (s : State X R) : Action X R → Prop
  | .request q => q.Kept s.threadCount
  | _ => True

def Outcome.Fits : Outcome X R → Action X R → Prop
  | .defined s, a => s.Fits a
  | .undefined, _ => True

def Action.Short : Action X R → Prop
  | .request q => q.Short
  | _ => True

theorem Action.Short.fits {a : Action X R} (h : a.Short) (o : Outcome X R) : o.Fits a := by
  cases o with
  | defined s =>
    cases a with
    | request q => exact Request.Short.kept h _
    | _ => trivial
  | undefined => trivial

/-- Every call asked for stays accounted for, unless its range is dropped. -/
theorem Work.accounted {s t : State X R} {a : Action X R} (h : Work callWeight s a t)
    (hle : accounted s ≤ (s.submitted : Multiset (Call X))) :
    ThreadPool.accounted t ≤ (t.submitted : Multiset (Call X)) ∧
      (ThreadPool.accounted t = (t.submitted : Multiset (Call X)) ↔
        ThreadPool.accounted s = (s.submitted : Multiset (Call X)) ∧ s.Fits a) := by
  cases h with
  | @request q r hplan htodo =>
    have hnew : ThreadPool.accounted (s.accept q r) = ThreadPool.accounted s + callWeight.items (q.items s) := by
      rw [ThreadPool.accounted,htodo,← add_assoc]
      rfl
    have hsubmitted : ((s.accept q r).submitted : Multiset (Call X)) = s.submitted + r.2.1 := by
      rw [Multiset.coe_add]
      rfl
    rw [hnew,hsubmitted,callWeight_items]
    rcases plan_calls hplan with ⟨hcalls,hkept⟩ | ⟨hcalls,hne,hdropped⟩
    · rw [hcalls,add_left_inj]
      exact ⟨add_le_add_left hle _,(and_iff_left hkept).symm⟩
    · rw [hcalls,Multiset.coe_nil,add_zero]
      have hmore : (s.submitted : Multiset (Call X)) < s.submitted + r.2.1 :=
        lt_add_of_pos_right _ (pos_iff_ne_zero.mpr (by simpa using hne))
      have hlt := lt_of_le_of_lt hle hmore
      exact ⟨hlt.le,iff_of_false hlt.ne fun hgood => hdropped hgood.2⟩
  | @call i r j c left old batch m t hpc ht htodo htodo' =>
    have hexecuted : (t.executed.map Prod.fst : Multiset (Call X)) = s.executed.map Prod.fst + {c} := by
      rw [ht,List.map_append,← Multiset.coe_add]
      rfl
    have hsame : ThreadPool.accounted t = ThreadPool.accounted s := by
      rw [ThreadPool.accounted,ThreadPool.accounted,htodo,htodo',hexecuted]
      simp only [callWeight,← Multiset.cons_coe,← Multiset.singleton_add]
      ac_rfl
    have hsubmitted : t.submitted = s.submitted := by rw [ht]; rfl
    rw [hsame,hsubmitted]
    exact ⟨hle,(and_iff_left trivial).symm⟩
  | @finish i j result batch m t hpc ht htodo htodo' =>
    have hsame : ThreadPool.accounted t = ThreadPool.accounted s := by
      rw [ThreadPool.accounted,ThreadPool.accounted,htodo,htodo',ht]
      exact congrArg _ (add_zero m).symm
    have hsubmitted : t.submitted = s.submitted := by rw [ht]; rfl
    rw [hsame,hsubmitted]
    exact ⟨hle,(and_iff_left trivial).symm⟩
  | other ha hsame htodo =>
    have hfits : s.Fits a := by
      cases a with
      | request q => exact absurd rfl (ha q)
      | _ => trivial
    rw [ThreadPool.accounted,htodo,hsame.executed,hsame.submitted]
    exact ⟨hle,(and_iff_left hfits).symm⟩

def promiseWeight (p : ℕ) : Weight X ℕ where
  item item := if item.promise? = some p then 1 else 0
  rest j _ := if j.promise = some p then 1 else 0
  job _ := rfl
  barrier _ := rfl
  poison := rfl

theorem promiseWeight_rest (p : ℕ) (j : Job X) (left : List (Call X)) :
    (promiseWeight p).rest j left = if j.promise = some p then 1 else 0 := rfl

theorem promiseWeight_items (p : ℕ) (items : List (Item X)) :
    (promiseWeight p).items items = (items.filterMap Item.promise?).count p := by
  induction items with
  | nil => rfl
  | cons item items ih =>
    rw [Weight.items_cons,ih]
    cases hpromise : item.promise? with
    | none => simp [promiseWeight,hpromise]
    | some k => by_cases hk : k = p <;> simp [promiseWeight,hpromise,hk,Nat.add_comm]

theorem finishJob_future_ne {s : State X R} {i p : ℕ} {j : Job X} {result : Option R} {batch : List (Item X)}
    (h : j.promise ≠ some p) : (finishJob s i j result batch).future p = s.future p := by
  cases hk : j.promise with
  | none => simp [finishJob,hk]
  | some k =>
    have hne : p ≠ k := by
      rintro rfl
      exact h hk
    simp [finishJob,hk,hne]

/-- Each promise made is still on its way or has been fulfilled, and not both. -/
def PromisesKept (s : State X R) : Prop :=
  ∀ p, todo (promiseWeight p) s + (if (s.future p).isSome then 1 else 0) = if p < s.promises then 1 else 0

theorem initial_promisesKept (n : ℕ) : PromisesKept (initial X R n) := by
  intro p
  simp [initial,todo]

theorem PromisesKept.step {s t : State X R} {a : Action X R} (hs : PromisesKept s) (h : ∀ p, Work (promiseWeight p) s a t) :
    PromisesKept t := by
  intro p
  have hp := hs p
  cases h p with
  | @request q r hplan htodo =>
    have hcount : (promiseWeight p).items (q.items s) = if s.promises ≤ p ∧ p < s.promises+r.2.2 then 1 else 0 := by
      rw [promiseWeight_items,plan_promises hplan,(List.nodup_range').count]
      simp only [List.mem_range'_1]
    have hmore : (if p < s.promises+r.2.2 then 1 else 0) =
        (if p < s.promises then 1 else 0) + if s.promises ≤ p ∧ p < s.promises+r.2.2 then 1 else 0 := by
      split_ifs <;> omega
    have hpromises : (s.accept q r).promises = s.promises+r.2.2 := rfl
    have hfuture : (s.accept q r).future = s.future := rfl
    rw [htodo,hcount,hpromises,hfuture]
    omega
  | @call i r j c left old batch m t hpc ht htodo htodo' =>
    have hsame : todo (promiseWeight p) t = todo (promiseWeight p) s := by rw [htodo,htodo']; rfl
    rw [hsame,ht]
    exact hp
  | @finish i j result batch m t hpc ht htodo htodo' =>
    have hone : (if p < s.promises then 1 else 0) ≤ 1 := by split_ifs <;> omega
    have hpromises : (finishJob s i j result batch).promises = s.promises := rfl
    rw [htodo,promiseWeight_rest] at hp
    rw [htodo',ht,hpromises]
    by_cases hpromise : j.promise = some p
    · have hfuture : (finishJob s i j result batch).future p = some result := by simp [finishJob,hpromise]
      rw [if_pos hpromise] at hp
      rw [hfuture,Option.isSome_some,if_pos rfl]
      omega
    · rw [if_neg hpromise] at hp
      rw [finishJob_future_ne hpromise]
      exact hp
  | other ha hsame htodo => rw [htodo,hsame.future,hsame.promises]; exact hp

theorem le_todo (w : Weight X ℕ) {s : State X R} (h : PoolInv s) {i : ℕ} {x : Job X × List (Call X) × Option R}
    (hx : (s.worker i).underWay = some x) : w.rest x.1 x.2.1 ≤ todo w s := by
  have hi : i < s.queueCount := by
    refine h.started fun hpc => ?_
    rw [hpc] at hx
    cases hx
  have hload : w.rest x.1 x.2.1 ≤ load w s i := by
    rw [load,WorkerPc.rest,hx]
    exact Nat.le_add_right _ _
  exact hload.trans (Finset.single_le_sum (fun _ _ => Nat.zero_le _) (Finset.mem_range.mpr hi))

def RunsToEnd (s : State X R) : Prop := ∀ i x, (s.worker i).underWay = some x → x.2.1 <:+ x.1.calls

theorem RunsToEnd.step {w : Weight X ℕ} {s t : State X R} {a : Action X R} (hs : RunsToEnd s) (h : Work w s a t) :
    RunsToEnd t := by
  intro k x hx
  cases h with
  | request hplan htodo => exact hs k x hx
  | @call i r j c left old batch m t hpc ht htodo htodo' =>
    have hold := hs i (j,c :: left,old) (by rw [hpc]; rfl)
    by_cases hk : k = i
    · simp only [ht,State.setWorker,hk,Function.update_self,WorkerPc.underWay,Option.some.injEq] at hx
      subst hx
      exact (List.suffix_cons c left).trans hold
    · simp only [ht,State.setWorker,Function.update_of_ne hk] at hx
      exact hs k x hx
  | @finish i j result batch m t hpc ht htodo htodo' =>
    by_cases hk : k = i
    · simp [ht,finishJob,State.setWorker,hk,WorkerPc.underWay] at hx
    · simp only [ht,finishJob,State.setWorker,Function.update_of_ne hk] at hx
      exact hs k x hx
  | other ha hsame htodo =>
    rcases hsame.begins k x hx with hx | hx
    · exact hs k x hx
    · rw [hx]

/-- The result of a call with a promise is in the future, or with the worker that is
about to put it there. -/
def ResultsKept (s : State X R) : Prop :=
  ∀ x p r, ((x,some p),r) ∈ s.executed → s.future p = some (some r) ∨
    ∃ i j, (s.worker i).underWay = some (j,[],some r) ∧ j.promise = some p

theorem Job.promised {j : Job X} {x : X} {p : ℕ} {left : List (Call X)} (h : ((x,some p) : Call X) :: left <:+ j.calls) :
    left = [] ∧ j.promise = some p ∧ ∀ (r : R), j.callable.result r = some r := by
  unfold Job.calls at h
  split at h
  · next x' hcallable =>
    have heq : ((x,some p) : Call X) :: left = [(x',j.promise)] :=
      (List.suffix_cons_iff.mp h).resolve_right fun hnil => by simp at hnil
    obtain ⟨hcall,hleft⟩ := List.cons.inj heq
    exact ⟨hleft,(Prod.mk.inj hcall).2.symm,fun r => by rw [hcallable]; rfl⟩
  · next xs hcallable =>
    have hmem := h.subset List.mem_cons_self
    simp at hmem

theorem ResultsKept.step {s t : State X R} {a : Action X R} (hs : ResultsKept s) (hinv' : PoolInv t) (hruns : RunsToEnd s)
    (hkept : PromisesKept s) (h : ∀ p, Work (promiseWeight p) s a t) :
    ResultsKept t := by
  intro x p r hmem
  cases h p with
  | request hplan htodo => exact hs x p r hmem
  | @call i r' j c left old batch m t hpc ht htodo htodo' =>
    have hself : (t.worker i).underWay = some (j,left,j.callable.result r') := by simp [ht,State.setWorker,WorkerPc.underWay]
    have hfuture : t.future = s.future := by rw [ht]; rfl
    rw [ht] at hmem
    rcases List.mem_append.mp hmem with hmem | hmem
    · rcases hs x p r hmem with hdone | ⟨k,j',hunder,hpromise⟩
      · exact Or.inl (by rw [hfuture]; exact hdone)
      · have hk : k ≠ i := by
          rintro rfl
          rw [hpc] at hunder
          cases hunder
        refine Or.inr ⟨k,j',?_,hpromise⟩
        simpa [ht,State.setWorker,hk] using hunder
    · obtain ⟨rfl,rfl⟩ := Prod.mk.inj (List.mem_singleton.mp hmem)
      obtain ⟨rfl,hpromise,hresult⟩ := Job.promised (hruns i _ (by rw [hpc]; rfl))
      exact Or.inr ⟨i,j,by rw [hself,hresult],hpromise⟩
  | @finish i j result batch m t hpc ht htodo htodo' =>
    have hold := hs x p r (by rw [ht] at hmem; exact hmem)
    have hcount := hkept p
    have hone : (if p < s.promises then 1 else 0) ≤ 1 := by split_ifs <;> omega
    rw [htodo,promiseWeight_rest] at hcount
    have hstill {k : ℕ} {j' : Job X} (hk : k ≠ i) (hunder : (s.worker k).underWay = some (j',[],some r)) :
        (t.worker k).underWay = some (j',[],some r) := by
      simpa [ht,finishJob,State.setWorker,hk] using hunder
    by_cases hpromise : j.promise = some p
    -- no other job has this promise, and it has not been fulfilled before
    · rw [if_pos hpromise] at hcount
      have hfuture : t.future p = some result := by simp [ht,finishJob,hpromise]
      rcases hold with hdone | ⟨k,j',hunder,hpromise'⟩
      · rw [hdone,Option.isSome_some,if_pos rfl] at hcount
        omega
      · by_cases hk : k = i
        · rw [hk,hpc] at hunder
          cases hunder
          exact Or.inl hfuture
        · have hle := le_todo (promiseWeight p) hinv' (hstill hk hunder)
          rw [promiseWeight_rest,if_pos hpromise',htodo'] at hle
          omega
    · rcases hold with hdone | ⟨k,j',hunder,hpromise'⟩
      · exact Or.inl (by rw [ht,finishJob_future_ne hpromise,hdone])
      · have hk : k ≠ i := by
          rintro rfl
          rw [hpc] at hunder
          cases hunder
          exact hpromise hpromise'
        exact Or.inr ⟨k,j',hstill hk hunder,hpromise'⟩
  | other ha hsame htodo =>
    rw [hsame.executed] at hmem
    rcases hs x p r hmem with hdone | ⟨k,j',hunder,hpromise⟩
    · exact Or.inl (by rw [hsame.future]; exact hdone)
    · exact Or.inr ⟨k,j',hsame.runs k _ hunder,hpromise⟩

structure JobsInv (s : State X R) : Prop where
  pool : PoolInv s
  accounted : accounted s ≤ (s.submitted : Multiset (Call X))
  runs : RunsToEnd s
  promises : PromisesKept s
  results : ResultsKept s

theorem initial_jobsInv {n : ℕ} (hn : 0 < n) : JobsInv (initial X R n) where
  pool := initial_poolInv hn
  accounted := by simp [accounted,initial,todo]
  runs i x hx := by simp [initial,WorkerPc.underWay] at hx
  promises := initial_promisesKept n
  results x p r hmem := by simp [initial] at hmem

theorem JobsInv.step {s t : State X R} {a : Action X R} (h : JobsInv s) (hstep : step s a = some t) : JobsInv t := by
  have hmove := Move.of_step hstep
  have hpool := h.pool.step hstep
  have hpromises := h.promises.step fun p => hmove.work (promiseWeight p) h.pool
  exact ⟨hpool,((hmove.work callWeight h.pool).accounted h.accounted).1,h.runs.step (hmove.work (promiseWeight 0) h.pool),
    hpromises,h.results.step hpool h.runs h.promises fun p => hmove.work (promiseWeight p) h.pool⟩

/-- Between calls of a pool that does not run, and in `setThreadCount` between `stop` and
`start`. -/
def State.Stopped (s : State X R) : Prop := s.submitter = .creating ∨ s.submitter = .idle ∧ s.running = false

/-- Every call asked for has been made once, every future holds the result of its own
call, no worker has left anything behind, and no queue is left. -/
structure Drained (s : State X R) : Prop where
  executed : (s.executed.map Prod.fst).Perm s.submitted
  results : ∀ x p r, ((x,some p),r) ∈ s.executed → s.future p = some (some r)
  futures : ∀ p < s.promises, (s.future p).isSome
  abandoned : s.abandoned = []
  queues : s.queueCount = 0
  pointer : s.jobQueuePointer = 0

theorem PoolInv.stopped {s : State X R} (h : PoolInv s) (hstop : s.Stopped) : s.queueCount = 0 := by
  rcases hstop with hpc | ⟨hpc,hrun⟩
  · exact (h.creating hpc).1
  · exact h.idle hpc hrun

/-- All that can be missing when the pool has stopped is a call that was never put into
a queue. -/
theorem JobsInv.drained_iff {s : State X R} (h : JobsInv s) (hstop : s.Stopped) :
    Drained s ↔ ThreadPool.accounted s = (s.submitted : Multiset (Call X)) := by
  have hzero := h.pool.stopped hstop
  have hnone (i : ℕ) (hi : i < s.queueCount) : (s.worker i).underWay = none ∧ line s i = [] := by omega
  have haccounted : ThreadPool.accounted s = (s.executed.map Prod.fst : Multiset (Call X)) := by
    rw [ThreadPool.accounted,todo_eq_zero hnone,add_zero]
  rw [haccounted,Multiset.coe_eq_coe]
  refine ⟨Drained.executed,fun hperm => ⟨hperm,fun x p r hmem => ?_,fun p hp => ?_,h.pool.abandoned,hzero,h.pool.rewound hzero⟩⟩
  · refine (h.results x p r hmem).resolve_right ?_
    rintro ⟨i,j,hunder,-⟩
    rw [h.pool.unstarted_of_empty hzero] at hunder
    cases hunder
  · have hkept := h.promises p
    rw [todo_eq_zero hnone,if_pos hp] at hkept
    by_contra hnot
    simp [hnot] at hkept

def Complete (s : State X R) : Prop := accounted s = (s.submitted : Multiset (Call X))

theorem initial_complete (n : ℕ) : Complete (initial X R n) := by simp [Complete,accounted,initial,todo]

namespace Outcome

def Ended : Outcome X R → Prop
  | .defined s => s.Stopped
  | .undefined => True

def Drained : Outcome X R → Prop
  | .defined s => ThreadPool.Drained s
  | .undefined => False

def Inv : Outcome X R → Prop
  | .defined s => JobsInv s
  | .undefined => True

def Complete : Outcome X R → Prop
  | .defined s => ThreadPool.Complete s
  | .undefined => False

variable {o o' : Outcome X R} {a : Action X R}

theorem Inv.drained_iff (h : o.Inv) (hend : o.Ended) : o.Drained ↔ o.Complete := by
  cases o with
  | defined s => exact JobsInv.drained_iff h hend
  | undefined => exact Iff.rfl

theorem Inv.step (h : o.Inv) (hstep : execute o a = some o') : o'.Inv ∧ (o'.Complete ↔ o.Complete ∧ o.Fits a) := by
  cases o with
  | undefined => cases hstep
  | defined s =>
    have hs : JobsInv s := h
    rcases execute_cases hstep with ⟨t,rfl,ht⟩ | ⟨rfl,q,rfl,hplan⟩
    · exact ⟨hs.step ht,(((Move.of_step ht).work callWeight hs.pool).accounted hs.accounted).2⟩
    · exact ⟨trivial,iff_of_false id fun hgood => not_kept_of_plan hplan hgood.2⟩

end Outcome

def taskAndRange : List (Action ℕ ℕ) :=
  [.start,.submitter,.submitter,.submitter,.submitter,
    .request (.submitJobWithResult 7),.submitter,.submitter,
    .request (.submitJobRangeUnordered [1,2,3]),.submitter,.submitter,.submitter,.submitter,
    .stop,.submitter,.submitter,.submitter,
    .worker 0,.worker 0,.call 0 70,.worker 0,.worker 0,.call 0 20,.worker 0,.worker 0,
    .worker 1,.worker 1,.call 1 10,.worker 1,.worker 1,.call 1 30,.worker 1,.worker 1,
    .submitter,.submitter,.submitter,.submitter]

def startOne : List (Action ℕ ℕ) := [.start,.submitter,.submitter,.submitter]

def stopOne : List (Action ℕ ℕ) :=
  [.submitter,.stop,.submitter,.submitter,.worker 0,.worker 0,.submitter,.submitter,.submitter]

theorem request_eq {s : State X R} {q : Request X} {r : (List (Put X) × ℕ) × List (Call X) × ℕ}
    (hpc : s.submitter = .idle) (hrun : s.running = true) (hplan : plan s q = some r) :
    request s q = some (s.accept q r) := by
  simp only [request,hpc,hrun,hplan,Option.map_some]

theorem plan_dropped {s : State X R} {xs : List X} (h : rangeSize xs.length = 0) :
    plan s (.submitJobRangeUnordered xs) = some (([],s.jobQueuePointer),xs.map (·,none),0) := by
  simp [plan,submitJobRangeUnordered,h]

theorem run_oneRange {xs : List ℕ} (h : rangeSize xs.length = 0) : ∃ s : State ℕ ℕ,
    run step (initial ℕ ℕ 1) (startOne ++ .request (.submitJobRangeUnordered xs) :: stopOne) = some s ∧
      s.Stopped ∧ s.submitted = xs.map (·,none) ∧ s.executed = [] := by
  have hstart : (run step (initial ℕ ℕ 1) startOne).isSome := rfl
  let started := (run step (initial ℕ ℕ 1) startOne).get hstart
  have hrequest : request started (.submitJobRangeUnordered xs) =
      some (started.accept (.submitJobRangeUnordered xs) (([],started.jobQueuePointer),xs.map (·,none),0)) :=
    request_eq rfl rfl (plan_dropped h)
  refine ⟨(run step (started.accept (.submitJobRangeUnordered xs) (([],started.jobQueuePointer),xs.map (·,none),0))
    stopOne).get rfl,?_,Or.inr ⟨rfl,rfl⟩,rfl,rfl⟩
  rw [run_append (Option.some_get hstart).symm,run,step,hrequest]
  rfl

theorem plan_negative {s : State X R} {xs : List X} (h : perThread s.threadCount xs.length = none) :
    plan s (.submitJobRangeUnordered xs) = none := by
  have hsize : rangeSize xs.length ≠ 0 := by
    intro hzero
    simp [perThread_eq_none,hzero] at h
  simp only [plan,submitJobRangeUnordered,List.length_map,if_neg hsize,h,Option.map_none]

theorem run_negativeRange {xs : List ℕ} (h : perThread 1 xs.length = none) :
    run execute (.defined (initial ℕ ℕ 1)) (startOne ++ [.request (.submitJobRangeUnordered xs)]) = some .undefined := by
  have hstart : (run step (initial ℕ ℕ 1) startOne).isSome := rfl
  have hleaves : State.leavesRange ((run step (initial ℕ ℕ 1) startOne).get hstart) (.request (.submitJobRangeUnordered xs)) = true :=
    State.leavesRange_iff.mpr ⟨_,rfl,rfl,rfl,plan_negative h⟩
  rw [run_append (run_execute_of_run (Option.some_get hstart).symm),run,execute,if_pos hleaves]
  rfl

end ThreadPool
end AudioOutput
