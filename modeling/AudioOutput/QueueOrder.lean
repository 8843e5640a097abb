import AudioOutput.ThreadsafeQueue

/-!
# First in, first out

A sequential queue with the operations of `ThreadsafeQueue`, each of them one step,
and the simulation of it by any interleaving of the sections under the lock: a call
takes effect in the section in which it returns.
-/

namespace AudioOutput
namespace ThreadsafeQueue

open Transition

universe u
variable {T α : Type u}

/-- A call that has returned, with what it put in or what it hands out. -/
inductive Operation (T α : Type u) : Type u
  | enqueue (t : T) (item : α)
  | enqueueRange (t : T) (items : List α)
  | dequeue (t : T) (r : Request) (items : List α)
  | timeout (t : T)

namespace Operation

def thread : Operation T α → T
  | .enqueue t _ | .enqueueRange t _ | .dequeue t _ _ | .timeout t => t

def put : Operation T α → List α
  | .enqueue _ item => [item]
  | .enqueueRange _ items => items
  | .dequeue _ _ _ | .timeout _ => []

def handed : Operation T α → List α
  | .dequeue _ _ items => items
  | .enqueue _ _ | .enqueueRange _ _ | .timeout _ => []

end Operation

structure Fifo (α : Type u) where
  items : List α := []
  put : List α := []
  handed : List α := []

/-- What a call does to a queue that nobody else uses meanwhile. A consumer takes from
the old end; it returns with nothing only if its time has run out. -/
inductive Fifo.Serves : Fifo α → Operation T α → Fifo α → Prop
  | enqueue {q : Fifo α} {t : T} {item : α} :
      Serves q (.enqueue t item) ⟨q.items ++ [item],q.put ++ [item],q.handed⟩
  | enqueueRange {q : Fifo α} {t : T} {items : List α} :
      Serves q (.enqueueRange t items) ⟨q.items ++ items,q.put ++ items,q.handed⟩
  | dequeue {q : Fifo α} {t : T} {r : Request} (hne : q.items ≠ []) :
      Serves q (.dequeue t r (q.items.take r.count)) ⟨q.items.drop r.count,q.put,q.handed ++ q.items.take r.count⟩
  | timeout {q : Fifo α} {t : T} (hempty : q.items = []) : Serves q (.timeout t) q

namespace Fifo

variable {q q' : Fifo α} {op : Operation T α} {ops : List (Operation T α)}

theorem Serves.put_eq (h : Serves q op q') : q'.put = q.put ++ op.put := by
  cases h <;> simp [Operation.put]

theorem Serves.handed_eq (h : Serves q op q') : q'.handed = q.handed ++ op.handed := by
  cases h <;> simp [Operation.handed]

theorem Serves.balance (h : Serves q op q') (hq : q.handed ++ q.items = q.put) : q'.handed ++ q'.items = q'.put := by
  cases h with
  | enqueue | enqueueRange => rw [← hq,List.append_assoc]
  | dequeue hne => rw [← hq,List.append_assoc,List.take_append_drop]
  | timeout hempty => exact hq

theorem put_eq (h : Accepts Serves q ops q') : q'.put = q.put ++ ops.flatMap Operation.put := by
  induction h with
  | nil => simp
  | cons he _ ih => rw [ih,he.put_eq,List.flatMap_cons,List.append_assoc]

theorem handed_eq (h : Accepts Serves q ops q') : q'.handed = q.handed ++ ops.flatMap Operation.handed := by
  induction h with
  | nil => simp
  | cons he _ ih => rw [ih,he.handed_eq,List.flatMap_cons,List.append_assoc]

theorem balance (h : Accepts Serves q ops q') (hq : q.handed ++ q.items = q.put) : q'.handed ++ q'.items = q'.put := by
  induction h with
  | nil => exact hq
  | cons he _ ih => exact ih (he.balance hq)

end Fifo

/-- The calls of a run, in the order of their sections, as first-in-first-out has them. -/
structure Linearized (ops : List (Operation T α)) (s : State T α) : Prop where
  sequential : Accepts Fifo.Serves {} ops ⟨s.queue.items,s.put,s.handed⟩
  put : s.put = ops.flatMap Operation.put
  handed : s.handed = ops.flatMap Operation.handed
  inOrder : s.handed <+: s.put
  ranges : ∀ before t items after, ops = before ++ .enqueueRange t items :: after →
    s.put = before.flatMap Operation.put ++ items ++ after.flatMap Operation.put
  consecutive : ∀ before t r items after, ops = before ++ .dequeue t r items :: after →
    before.flatMap Operation.handed ++ items <+: s.put ∧ items.length ≤ r.count ∧ (0 < r.count → 0 < items.length)

/-- Every sequence of calls that the sequential queue serves is linearized so. -/
theorem Linearized.of_accepts {ops : List (Operation T α)} {s : State T α}
    (h : Accepts Fifo.Serves {} ops ⟨s.queue.items,s.put,s.handed⟩) : Linearized ops s where
  sequential := h
  put := Fifo.put_eq h
  handed := Fifo.handed_eq h
  inOrder := ⟨_,Fifo.balance h rfl⟩
  ranges := by
    rintro before t items after rfl
    have hput : s.put = _ := Fifo.put_eq h
    simpa [Operation.put] using hput
  consecutive := by
    rintro before t r items after rfl
    obtain ⟨q,q',hbefore,hop,hafter⟩ := h.split
    have hhanded : q.handed = before.flatMap Operation.handed := by simpa using Fifo.handed_eq hbefore
    have hput : s.put = q'.put ++ _ := Fifo.put_eq hafter
    have hbal := hop.balance (Fifo.balance hbefore rfl)
    cases hop with
    | dequeue hne =>
      refine ⟨?_,List.length_take_le ..,fun hcount => ?_⟩
      · rw [← hhanded,hput]
        have hput' : q.put = q.handed ++ q.items.take r.count ++ q.items.drop r.count := hbal.symm
        exact ⟨q.items.drop r.count ++ after.flatMap Operation.put,by rw [hput',List.append_assoc _ (q.items.drop _)]⟩
      · have hpos := List.length_pos_of_ne_nil hne
        rw [List.length_take]
        omega

def Pc.Calls : Pc α → Operation T α → Prop
  | .enqueueing item, .enqueue _ item' => item' = item
  | .enqueueingRange items, .enqueueRange _ items' => items' = items
  | .dequeueing r, .dequeue _ r' _ | .woken r, .dequeue _ r' _ => r' = r
  | .expired, .dequeue _ r' _ => r' = .dequeueWithTimeout
  | .expired, .timeout _ => True
  | _, _ => False

/-- The call that returns at the end of this step. A section in which a consumer goes
to sleep ends no call. -/
def returned (s : State T α) : Action T α → Option (Operation T α)
  | .locked t _ =>
    match s.thread t with
    | .enqueueing item => some (.enqueue t item)
    | .enqueueingRange items => some (.enqueueRange t items)
    | .dequeueing r | .woken r =>
      match s.queue.items with
      | [] => none
      | _ :: _ => some (.dequeue t r (s.queue.takeUpTo r.count).1)
    | .expired =>
      match s.queue.items with
      | [] => some (.timeout t)
      | _ :: _ => some (.dequeue t .dequeueWithTimeout (s.queue.takeUpTo 1).1)
    | .idle | .asleep _ => none
  | _ => none

def State.fifo (s : State T α) : Fifo α := ⟨s.queue.items,s.put,s.handed⟩

variable {s u : State T α} {a : Action T α} {op : Operation T α}

theorem returned_dequeue {t : T} {r : Request} (hpc : s.thread t = .dequeueing r ∨ s.thread t = .woken r)
    (hne : s.queue.items ≠ []) :
    returned s (.locked t none) = some (.dequeue t r (s.queue.items.take r.count)) := by
  rw [← Queue.takeUpTo_fst]
  cases hitems : s.queue.items with
  | nil => exact absurd hitems hne
  | cons => rcases hpc with hpc | hpc <;> simp only [returned,hpc,hitems]

theorem returned_expired {t : T} (hpc : s.thread t = .expired) (hne : s.queue.items ≠ []) :
    returned s (.locked t none) = some (.dequeue t .dequeueWithTimeout (s.queue.items.take 1)) := by
  rw [← Queue.takeUpTo_fst]
  cases hitems : s.queue.items with
  | nil => exact absurd hitems hne
  | cons => simp only [returned,hpc,hitems]

variable [DecidableEq T]

theorem fifo_take (t : T) (n : ℕ) :
    (s.take t n).fifo = ⟨s.queue.items.drop n,s.put,s.handed ++ s.queue.items.take n⟩ := by
  simp only [State.fifo,State.take,State.setThread,Queue.takeUpTo_items,Queue.takeUpTo_fst]

/-- A step either ends a call, as the sequential queue would serve it, or leaves the
queue and all that has passed through it alone. -/
inductive Effect (s u : State T α) (a : Action T α) : Prop
  | quiet (hnone : returned s a = none) (hsame : u.fifo = s.fifo)
  | ends (op : Operation T α) (hop : returned s a = some op) (hserves : Fifo.Serves s.fifo op u.fifo)
      (hcalls : (s.thread op.thread).Calls op) (hidle : u.thread op.thread = .idle)

theorem Move.effect (hm : Move s a u) : Effect s u a := by
  cases hm with
  | beginEnqueue hpc | beginEnqueueRange hpc | beginDequeue hpc | spurious hpc | timeout hpc => exact .quiet rfl rfl
  | @enqueueQuiet t item hpc | @enqueue t _ item _ hpc =>
    have hcalls : (s.thread t).Calls (.enqueue t item) := by rw [hpc]; rfl
    exact .ends (.enqueue t item) (by simp only [returned,hpc]) .enqueue hcalls (Function.update_self ..)
  | @enqueueRange t items hpc =>
    have hcalls : (s.thread t).Calls (.enqueueRange t items) := by rw [hpc]; rfl
    exact .ends (.enqueueRange t items) (by simp only [returned,hpc]) .enqueueRange hcalls (Function.update_self ..)
  | sleep hpc hempty =>
    exact .quiet (by rcases hpc with hpc | hpc <;> simp only [returned,hpc,hempty]) rfl
  | @take t r hpc hne =>
    have hcalls : (s.thread t).Calls (.dequeue t r (s.queue.items.take r.count)) := by
      rcases hpc with hpc | hpc <;> rw [hpc] <;> rfl
    refine .ends _ (returned_dequeue hpc hne) ?_ hcalls (Function.update_self ..)
    rw [fifo_take]
    exact .dequeue hne
  | @expire t hpc hempty =>
    have hcalls : (s.thread t).Calls (.timeout t) := by rw [hpc]; trivial
    exact .ends (.timeout t) (by simp only [returned,hpc,hempty]) (.timeout hempty) hcalls (Function.update_self ..)
  | @takeExpired t hpc hne =>
    have hcalls : (s.thread t).Calls (.dequeue t .dequeueWithTimeout (s.queue.items.take 1)) := by rw [hpc]; rfl
    refine .ends _ (returned_expired hpc hne) ?_ hcalls (Function.update_self ..)
    rw [fifo_take]
    exact .dequeue hne

/-- In every interleaving the calls, ordered by the sections in which they return, are a
run of the sequential queue; every other step, and a timeout, changes nothing. -/
theorem linearizable_fifo {as : List (Action T α)} (h : run step (initial T α) as = some s) :
    Linearized (trace step returned (initial T α) as) s ∧
      ∀ a u, step s a = some u →
        (∀ op, returned s a = some op → (s.thread op.thread).Calls op ∧ u.thread op.thread = .idle) ∧
        ((∀ op, returned s a = some op → ∃ t, op = .timeout t) →
          u.queue.items = s.queue.items ∧ u.put = s.put ∧ u.handed = s.handed) := by
  refine ⟨.of_accepts (simulates (f := State.fifo) ?_ ?_ h),fun a u hu => ?_⟩
  · intro s a u hu hnone
    cases (Move.of_step hu).effect with
    | quiet _ hsame => exact hsame
    | ends op hop => cases hop.symm.trans hnone
  · intro s a u op hu hop
    cases (Move.of_step hu).effect with
    | quiet hnone => cases hop.symm.trans hnone
    | ends op' hop' hserves =>
      cases hop.symm.trans hop'
      exact hserves
  · cases (Move.of_step hu).effect with
    | quiet hnone hsame =>
      rw [hnone]
      exact ⟨nofun,fun _ => ⟨congrArg Fifo.items hsame,congrArg Fifo.put hsame,congrArg Fifo.handed hsame⟩⟩
    | ends op hop hserves hcalls hidle =>
      rw [hop]
      refine ⟨?_,fun hquiet => ?_⟩
      · rintro _ ⟨⟩
        exact ⟨hcalls,hidle⟩
      · obtain ⟨t,rfl⟩ := hquiet op rfl
        have hsame : u.fifo = s.fifo := by
          generalize u.fifo = q' at hserves
          cases hserves
          rfl
        exact ⟨congrArg Fifo.items hsame,congrArg Fifo.put hsame,congrArg Fifo.handed hsame⟩

def wokenForRange : List (Action Bool ℕ) :=
  [.dequeue true (.dequeueRange 2),.locked true none,.enqueue false 7,.locked false (some true),
    .enqueueRange false [8,9],.locked false none,.locked true none]

theorem linearizable_wokenForRange : ∃ s : State Bool ℕ, run step (initial Bool ℕ) wokenForRange = some s ∧
    s.put = [7,8,9] ∧ s.handed = [7,8] ∧ Linearized (trace step returned (initial Bool ℕ) wokenForRange) s := by
  have hrun : (run step (initial Bool ℕ) wokenForRange).isSome := rfl
  exact ⟨_,(Option.some_get hrun).symm,rfl,rfl,(linearizable_fifo (Option.some_get hrun).symm).1⟩

end ThreadsafeQueue
end AudioOutput
