import AudioOutput.ThreadPoolLines
import Mathlib.Algebra.BigOperators.Group.Finset.Basic

/-!
# How much the pool has still to do

The items in all lines and what is left of the jobs under way, measured in any
commutative monoid. A request adds the weight of its items, a call and the end of
a job take away theirs, and no other step changes anything.
-/

namespace AudioOutput
namespace ThreadPool

universe u v
variable {X R : Type u} {M : Type v} [AddCommMonoid M]

/-- The weight of an item in line and of a job under way; a job weighs the same
in line as when it has just begun. -/
structure Weight (X : Type u) (M : Type v) [AddCommMonoid M] where
  item : Item X → M
  rest : Job X → List (Call X) → M
  job : ∀ j, item (.job j) = rest j j.calls
  barrier : ∀ b, item (.barrier b) = 0
  poison : item .poison = 0

def Weight.items (w : Weight X M) (items : List (Item X)) : M := (items.map w.item).sum

@[simp] theorem Weight.items_nil (w : Weight X M) : w.items [] = 0 := rfl

@[simp] theorem Weight.items_cons (w : Weight X M) (item : Item X) (items : List (Item X)) :
    w.items (item :: items) = w.item item + w.items items := by
  simp [Weight.items]

@[simp] theorem Weight.items_append (w : Weight X M) (as bs : List (Item X)) :
    w.items (as ++ bs) = w.items as + w.items bs := by
  simp [Weight.items]

attribute [simp] Weight.job Weight.barrier Weight.poison

def WorkerPc.underWay : WorkerPc X R → Option (Job X × List (Call X) × Option R)
  | .running j left result _ => some (j,left,result)
  | _ => none

@[simp] theorem WorkerPc.underWay_notify (pc : WorkerPc X R) : pc.notify.underWay = pc.underWay := by
  cases pc <;> rfl

def WorkerPc.rest (w : Weight X M) (pc : WorkerPc X R) : M := pc.underWay.elim 0 fun x => w.rest x.1 x.2.1

def load (w : Weight X M) (s : State X R) (i : ℕ) : M := (s.worker i).rest w + w.items (line s i)

def todo (w : Weight X M) (s : State X R) : M := ∑ i ∈ Finset.range s.queueCount, load w s i

theorem todo_congr {w : Weight X M} {s t : State X R} (hcount : t.queueCount = s.queueCount)
    (h : ∀ i < s.queueCount, load w t i = load w s i) : todo w t = todo w s := by
  rw [todo,todo,hcount]
  exact Finset.sum_congr rfl fun i hi => h i (Finset.mem_range.mp hi)

theorem load_eq {w : Weight X M} {s t : State X R} {i : ℕ} (hrun : (t.worker i).underWay = (s.worker i).underWay)
    (hline : line t i = line s i) : load w t i = load w s i := by
  rw [load,load,WorkerPc.rest,WorkerPc.rest,hrun,hline]

theorem sum_itemsFor (w : Weight X M) {n : ℕ} {puts : List (Put X)} (h : ∀ p ∈ puts, p.index < n) :
    ∑ i ∈ Finset.range n, w.items (itemsFor i puts) = w.items (puts.flatMap Put.items) := by
  induction puts with
  | nil => simp [itemsFor]
  | cons p puts ih =>
    have hp : p.index ∈ Finset.range n := Finset.mem_range.mpr (h p (by simp))
    have hone (i : ℕ) : w.items (if p.index = i then p.items else []) = if p.index = i then w.items p.items else 0 := by
      split <;> rfl
    simp only [itemsFor_cons,Weight.items_append,hone,Finset.sum_add_distrib,Finset.sum_ite_eq,if_pos hp,
      ih fun p' hp' => h p' (List.mem_cons_of_mem _ hp'),List.flatMap_cons]

theorem todo_accept (w : Weight X M) {s : State X R} (h : PoolInv s) {q : Request X}
    {r : (List (Put X) × ℕ) × List (Call X) × ℕ} (hpc : s.submitter = .idle) (hrun : s.running = true)
    (hplan : plan s q = some r) : todo w (s.accept q r) = todo w s + w.items (q.items s) := by
  have hspec := plan_spec h.pointer (h.running hrun) hplan
  have hindex (p : Put X) (hp : p ∈ r.1.1) : p.index < s.queueCount := by
    rw [h.running hrun]
    exact hspec.index p hp
  have hload (i : ℕ) : load w (s.accept q r) i = load w s i + w.items (itemsFor i r.1.1) := by
    simp only [load,line_accept hpc,Weight.items_append,add_assoc]
    rfl
  simp only [todo,hload,Finset.sum_add_distrib]
  rw [← hspec.items,← sum_itemsFor w hindex]
  rfl

theorem Local.todo (w : Weight X M) {s t : State X R} {i : ℕ} (h : Local i s t) (hi : i < s.queueCount) :
    ∃ m, ThreadPool.todo w s = m + load w s i ∧ ThreadPool.todo w t = m + load w t i := by
  have hmem : i ∈ Finset.range s.queueCount := Finset.mem_range.mpr hi
  refine ⟨∑ k ∈ (Finset.range s.queueCount).erase i, load w s k,?_,?_⟩
  · rw [ThreadPool.todo,Finset.sum_erase_add _ _ hmem]
  · rw [ThreadPool.todo,h.queueCount,← Finset.sum_erase_add _ _ hmem]
    congr 1
    refine Finset.sum_congr rfl fun k hk => ?_
    have hne := Finset.ne_of_mem_erase hk
    exact load_eq (by rw [h.worker k hne]) (h.line_ne hne)

/-- The books are the same in both states, and so are the jobs under way except for
those that have just begun. -/
structure SameBooks (s t : State X R) : Prop where
  submitted : t.submitted = s.submitted
  executed : t.executed = s.executed
  jobs : t.jobs = s.jobs
  finished : t.finished = s.finished
  future : t.future = s.future
  promises : t.promises = s.promises
  runs : ∀ i x, (s.worker i).underWay = some x → (t.worker i).underWay = some x
  begins : ∀ i x, (t.worker i).underWay = some x → (s.worker i).underWay = some x ∨ x.2 = (x.1.calls,none)

inductive Work (w : Weight X M) (s : State X R) : Action X R → State X R → Prop
  | request {q : Request X} {r : (List (Put X) × ℕ) × List (Call X) × ℕ} (hplan : plan s q = some r)
      (htodo : todo w (s.accept q r) = todo w s + w.items (q.items s)) : Work w s (.request q) (s.accept q r)
  | call {i : ℕ} {r : R} {j : Job X} {c : Call X} {left : List (Call X)} {old : Option R} {batch : List (Item X)} {m : M}
      {t : State X R} (hpc : s.worker i = .running j (c :: left) old batch)
      (ht : t = { s.setWorker i (.running j left (j.callable.result r) batch) with executed := s.executed ++ [(c,r)] })
      (htodo : todo w s = m + w.rest j (c :: left)) (htodo' : todo w t = m + w.rest j left) : Work w s (.call i r) t
  | finish {i : ℕ} {j : Job X} {result : Option R} {batch : List (Item X)} {m : M} {t : State X R}
      (hpc : s.worker i = .running j [] result batch) (ht : t = finishJob s i j result batch)
      (htodo : todo w s = m + w.rest j []) (htodo' : todo w t = m) : Work w s (.worker i) t
  | other {a : Action X R} {t : State X R} (ha : ∀ q, a ≠ .request q) (hsame : SameBooks s t) (htodo : todo w t = todo w s) :
      Work w s a t

theorem Work.same {w : Weight X M} {s t : State X R} {a : Action X R} (ha : ∀ q, a ≠ .request q) (hbooks : t.submitted = s.submitted ∧
    t.executed = s.executed ∧ t.jobs = s.jobs ∧ t.finished = s.finished ∧ t.future = s.future ∧ t.promises = s.promises)
    (hrun : ∀ i, (t.worker i).underWay = (s.worker i).underWay) (htodo : todo w t = todo w s) : Work w s a t := by
  obtain ⟨hsubmitted,hexecuted,hjobs,hfinished,hfuture,hpromises⟩ := hbooks
  exact .other ha ⟨hsubmitted,hexecuted,hjobs,hfinished,hfuture,hpromises,fun i x hx => (hrun i).trans hx,
    fun i x hx => Or.inl ((hrun i).symm.trans hx)⟩ htodo

theorem Local.work {w : Weight X M} {s t : State X R} {a : Action X R} {i : ℕ} (h : Local i s t) (ha : ∀ q, a ≠ .request q)
    (hi : i < s.queueCount) (hbooks : t.submitted = s.submitted ∧ t.executed = s.executed ∧ t.jobs = s.jobs ∧ t.finished = s.finished ∧
      t.future = s.future ∧ t.promises = s.promises)
    (hs : (s.worker i).underWay = none) (ht : (t.worker i).underWay = none)
    (hline : w.items (line t i) = w.items (line s i)) : Work w s a t := by
  have hrun (k : ℕ) : (t.worker k).underWay = (s.worker k).underWay := by
    by_cases hk : k = i
    · rw [hk,hs,ht]
    · rw [h.worker k hk]
  obtain ⟨m,hm,hm'⟩ := h.todo w hi
  refine .same ha hbooks hrun ?_
  rw [hm,hm',load,load,WorkerPc.rest,WorkerPc.rest,hrun,hline]

/-- Steps within a job, and those between jobs that take nothing off the line. -/
theorem Work.keep (w : Weight X M) {s t : State X R} {a : Action X R} {i : ℕ} (h : PoolInv s) (hmove : Move s a t)
    (ha : a.worker? = some i) (hkeep : Keeps i s t) : Work w s a t := by
  have hlocal := hmove.local ha
  have hi := h.started hlocal.started
  have hline := hkeep.line
  have hitems : w.items (line t i) = w.items (line s i) := by rw [hline]
  obtain ⟨m,hm,hm'⟩ := hlocal.todo w hi
  have hrequest (q : Request X) : a ≠ .request q := by
    rintro rfl
    cases ha
  cases hmove <;> cases ha
  case sleep hpc hempty =>
    refine hlocal.work hrequest hi ⟨rfl,rfl,rfl,rfl,rfl,rfl⟩ ?_ (by simp [State.setWorker,WorkerPc.underWay]) hitems
    rcases hpc with hpc | hpc <;> rw [hpc] <;> rfl
  case fetch hpc hne =>
    refine hlocal.work hrequest hi ⟨rfl,rfl,rfl,rfl,rfl,rfl⟩ ?_ (by simp [State.setWorker,WorkerPc.underWay]) hitems
    rcases hpc with hpc | hpc <;> rw [hpc] <;> rfl
  case refetch hpc =>
    exact hlocal.work hrequest hi ⟨rfl,rfl,rfl,rfl,rfl,rfl⟩ (by rw [hpc]; rfl) (by simp [State.setWorker,WorkerPc.underWay]) hitems
  case beginJob hpc => exact absurd hpc (hkeep.ahead _ _)
  case beginBarrier hpc => exact absurd hpc (hkeep.ahead _ _)
  case exit hpc => exact absurd hpc (hkeep.ahead _ _)
  case finish j result batch hpc =>
    refine .finish (m := m+w.items (line s i)) hpc rfl ?_ ?_
    · simp only [hm,load,WorkerPc.rest,hpc,WorkerPc.underWay,Option.elim_some,add_assoc,add_comm (w.rest j [])]
    · simp only [hm',load,WorkerPc.rest,hline]
      simp [finishJob,State.setWorker,WorkerPc.underWay]
  case release hpc =>
    exact hlocal.work hrequest hi ⟨rfl,rfl,rfl,rfl,rfl,rfl⟩ (by rw [hpc]; rfl) (by simp [State.setWorker,WorkerPc.underWay]) hitems
  case pass hreleased hpc =>
    exact hlocal.work hrequest hi ⟨rfl,rfl,rfl,rfl,rfl,rfl⟩ (by rw [hpc]; rfl) (by simp [State.setWorker,WorkerPc.underWay]) hitems
  case call r j c left old batch hpc =>
    refine .call (m := m+w.items (line s i)) hpc rfl ?_ ?_
    · simp only [hm,load,WorkerPc.rest,hpc,WorkerPc.underWay,Option.elim_some,add_assoc,add_comm (w.rest j _)]
    · simp only [hm',load,WorkerPc.rest,hline,add_assoc,add_comm (w.items (line s i))]
      simp [State.setWorker,WorkerPc.underWay]
  case spurious hpc =>
    exact hlocal.work hrequest hi ⟨rfl,rfl,rfl,rfl,rfl,rfl⟩ (by rw [hpc]; rfl) (by simp [State.setWorker,WorkerPc.underWay]) hitems

/-- An item that is begun weighs as much as before. -/
theorem Work.beginItem (w : Weight X M) {s : State X R} {a : Action X R} {i : ℕ} {item : Item X} {rest : List (Item X)}
    (h : PoolInv s) (ha : ∀ q, a ≠ .request q) (hlocal : Local i s (beginItem s i rest item)) (hpc : s.worker i = .looping (item :: rest)) :
    Work w s a (beginItem s i rest item) := by
  have hi := h.started hlocal.started
  have hnone : (s.worker i).underWay = none := by rw [hpc]; rfl
  cases item with
  | job j =>
    have hline := line_beginItem hpc (by simp)
    obtain ⟨m,hm,hm'⟩ := hlocal.todo w hi
    have hself : (ThreadPool.beginItem s i rest (.job j)).worker i = .running j j.calls none rest := by
      simp [ThreadPool.beginItem,State.setWorker]
    refine .other ha ⟨rfl,rfl,rfl,rfl,rfl,rfl,fun k x hx => ?_,fun k x hx => ?_⟩ ?_
    · have hne : k ≠ i := by
        rintro rfl
        rw [hnone] at hx
        cases hx
      rw [hlocal.worker k hne,hx]
    · by_cases hk : k = i
      · rw [hk,hself] at hx
        cases hx
        exact Or.inr rfl
      · rw [hlocal.worker k hk] at hx
        exact Or.inl hx
    · rw [hm,hm',load,load,WorkerPc.rest,WorkerPc.rest,hnone,hself,hline]
      simp [WorkerPc.underWay]
  | barrier b =>
    have hline := line_beginItem hpc (by simp)
    refine hlocal.work ha hi ⟨rfl,rfl,rfl,rfl,rfl,rfl⟩ hnone ?_ (by simp [hline])
    by_cases hlast : s.counter b+1 = s.goal b <;>
      simp [ThreadPool.beginItem,State.setWorker,hlast,WorkerPc.underWay]
  | poison =>
    obtain ⟨-,rfl,hqueue,hpending⟩ := h.exit hpc
    refine hlocal.work ha hi ⟨rfl,rfl,rfl,rfl,rfl,rfl⟩ hnone (by simp [ThreadPool.beginItem,State.setWorker,WorkerPc.underWay]) ?_
    rw [line_looping hpc]
    simp [line,ThreadPool.beginItem,State.setWorker,WorkerPc.batch,hqueue,hpending]

theorem Work.worker (w : Weight X M) {s t : State X R} {a : Action X R} {i : ℕ} (h : PoolInv s) (hmove : Move s a t)
    (ha : a.worker? = some i) : Work w s a t := by
  rcases hmove.line_worker ha with hkeep | ⟨item,rest,hpc,rfl⟩
  · exact Work.keep w h hmove ha hkeep
  · refine Work.beginItem w h ?_ (hmove.local ha) hpc
    rintro q rfl
    cases ha

/-- With all lines empty and no job under way nothing is left. -/
theorem todo_eq_zero {w : Weight X M} {s : State X R} (h : ∀ i < s.queueCount, (s.worker i).underWay = none ∧ line s i = []) :
    todo w s = 0 := by
  refine Finset.sum_eq_zero fun i hi => ?_
  obtain ⟨hnone,hline⟩ := h i (Finset.mem_range.mp hi)
  simp [load,WorkerPc.rest,hnone,hline]

theorem Work.passive {w : Weight X M} {s t : State X R} {a : Action X R} (ha : ∀ q, a ≠ .request q) (h : Passive s t) :
    Work w s a t := by
  have hrun (i : ℕ) : (t.worker i).underWay = (s.worker i).underWay := by
    rcases h.worker i with hpc | hpc | ⟨hpc,hpc'⟩
    · rw [hpc]
    · rw [hpc,WorkerPc.underWay_notify]
    · rw [hpc,hpc']
      rfl
  refine .same ha ⟨h.submitted,h.executed,h.jobs,h.finished,h.future,h.promises⟩ hrun
    (todo_congr h.queueCount fun i hi => ?_)
  rw [load,load,WorkerPc.rest,WorkerPc.rest,hrun]
  rcases h.line i hi with hline | hline
  · rw [hline]
  · rw [hline]
    simp

theorem Work.emptied {w : Weight X M} {s t : State X R} {a : Action X R} (ha : ∀ q, a ≠ .request q) (h : Emptied s t) :
    Work w s a t := by
  have hs (i : ℕ) : (s.worker i).underWay = none := by
    rcases h.gone i with hpc | hpc <;> rw [hpc] <;> rfl
  have ht (i : ℕ) : (t.worker i).underWay = none := by rw [h.worker i]; rfl
  refine .same ha ⟨h.submitted,h.executed,h.jobs,h.finished,h.future,h.promises⟩ (fun i => by rw [hs,ht]) ?_
  rw [todo_eq_zero fun i hi => ⟨hs i,h.drained i hi⟩,todo_eq_zero fun i _ => ⟨ht i,h.line i⟩]

/-- What one step of the pool does to the work that is left. -/
theorem Move.work (w : Weight X M) {s t : State X R} {a : Action X R} (h : PoolInv s) (hmove : Move s a t) : Work w s a t := by
  rcases hmove.effect h with ⟨i,hi⟩ | ⟨q,r,rfl,hpc,hrun,hplan,rfl⟩ | ⟨ha,hpassive | hemptied⟩
  · exact .worker w h hmove hi
  · exact .request hplan (todo_accept w h hpc hrun hplan)
  · exact .passive ha hpassive
  · exact .emptied ha hemptied

end ThreadPool
end AudioOutput
