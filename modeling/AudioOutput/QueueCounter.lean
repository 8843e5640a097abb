import AudioOutput.ThreadsafeQueue

/-!
# The counter of the queue

`_size` beside `internal_queue`. `enqueue` and `actualDequeue` keep the two in step;
`enqueueRange` pushes without counting, and from there on `size()` is short by
what it has pushed.
-/

namespace AudioOutput
namespace ThreadsafeQueue

open Transition

universe u
variable {T α : Type u}

/-- `size()` is the number of items held, and zero exactly when `empty()` is true. -/
structure Counted (s : State T α) : Prop where
  size : s.queue.size = s.queue.items.length
  empty : s.queue.size = 0 ↔ s.queue.items = []

/-- The sections that keep the count: ranges put in are empty, and the counter has
room for an item put in on its own. -/
def Tallied (s : State T α) : Action T α → Prop
  | .locked t _ =>
    (∀ items, s.thread t = .enqueueingRange items → items = []) ∧
    ∀ item, s.thread t = .enqueueing item → s.queue.items.length+1 < 2^32
  | _ => True

/-- The counter is an `unsigned int`. -/
def Fits (s : State T α) : Prop := s.queue.size < 2^32

theorem counted_iff (s : State T α) : Counted s ↔ s.queue.size = s.queue.items.length :=
  ⟨Counted.size,fun h => ⟨h,by rw [h,List.length_eq_zero_iff]⟩⟩

namespace Queue

theorem increment_eq_iff {size length : ℕ} (h : size = length) : increment size = length+1 ↔ length+1 < 2^32 := by
  rw [increment,h]
  constructor
  · intro heq
    rw [← heq]
    exact Nat.mod_lt _ (by decide)
  · exact Nat.mod_eq_of_lt

theorem decrement_succ {size : ℕ} (h : size+1 < 2^32) : decrement (size+1) = size := by
  unfold decrement
  omega

theorem takeUpTo_size (n : ℕ) (q : Queue α) (hfits : q.size < 2^32) (hsize : q.size = q.items.length) :
    (takeUpTo n q).2.size = (takeUpTo n q).2.items.length := by
  induction n generalizing q with
  | zero => exact hsize
  | succ n ih =>
    unfold takeUpTo
    split
    · exact hsize
    · next item rest hitems =>
      rw [hitems,List.length_cons] at hsize
      have hrest : decrement q.size = rest.length := by rw [hsize,decrement_succ (by omega)]
      have hlower : decrement q.size < 2^32 := by omega
      exact ih ⟨rest,decrement q.size⟩ hlower hrest

theorem takeUpTo_size_lt (n : ℕ) (q : Queue α) (hfits : q.size < 2^32) : (takeUpTo n q).2.size < 2^32 := by
  induction n generalizing q with
  | zero => exact hfits
  | succ n ih =>
    unfold takeUpTo
    split
    · exact hfits
    · exact ih _ (Nat.mod_lt _ (by decide))

end Queue

variable [DecidableEq T] {s u : State T α} {a : Action T α}

/-- A section counts rightly if and only if it is one of those. -/
theorem Counted.step (hfits : Fits s) (hs : Counted s) (hm : Move s a u) : Fits u ∧ (Counted u ↔ Tallied s a) := by
  have hsize := hs.size
  rw [counted_iff]
  cases hm with
  | beginEnqueue hpc | beginEnqueueRange hpc | beginDequeue hpc | spurious hpc | timeout hpc =>
    exact ⟨hfits,iff_of_true hsize trivial⟩
  | enqueueQuiet hpc | enqueue hpc =>
    refine ⟨Nat.mod_lt _ (by decide),?_⟩
    simp only [Tallied,hpc,reduceCtorEq,false_implies,implies_true,true_and,Pc.enqueueing.injEq,forall_eq']
    rw [← Queue.increment_eq_iff hsize]
    simp [State.setThread,State.wake,Queue.enqueue]
  | @enqueueRange t items hpc =>
    refine ⟨hfits,?_⟩
    simp only [Tallied,hpc,reduceCtorEq,false_implies,implies_true,and_true,Pc.enqueueingRange.injEq,forall_eq',
      Queue.enqueueRange,hsize,List.length_append]
    rw [Nat.left_eq_add,List.length_eq_zero_iff]
  | sleep hpc =>
    exact ⟨hfits,iff_of_true hsize (by rcases hpc with hpc | hpc <;> simp [Tallied,hpc])⟩
  | take hpc =>
    refine ⟨Queue.takeUpTo_size_lt _ _ hfits,iff_of_true (Queue.takeUpTo_size _ _ hfits hsize) ?_⟩
    rcases hpc with hpc | hpc <;> simp [Tallied,hpc]
  | expire hpc => exact ⟨hfits,iff_of_true hsize (by simp [Tallied,hpc])⟩
  | takeExpired hpc =>
    exact ⟨Queue.takeUpTo_size_lt _ _ hfits,iff_of_true (Queue.takeUpTo_size _ _ hfits hsize) (by simp [Tallied,hpc])⟩

/-- `size()` is right in every state of a run exactly when no range with items in it was
put in, and never 2^32 items were held. -/
theorem size_eq_length_iff {as : List (Action T α)} (h : run step (initial T α) as = some s) :
    (∀ before u, before <+: as → run step (initial T α) before = some u → Counted u) ↔
      Along step Tallied (initial T α) as :=
  prefixes_iff_along (I := Fits) (fun _ _ _ hI hgood ht => hgood.step hI (.of_step ht)) h
    (by decide : 0 < 2^32) ((counted_iff _).mpr rfl)

def rangeOfOne : List (Action Unit ℕ) := [.enqueueRange () [7],.locked () none,.dequeue () .dequeue,.locked () none]

/-- `size()` is 0 while the item is held, and the largest `unsigned int` once it is gone. -/
theorem size_wrong_after_enqueueRange :
    (∃ s : State Unit ℕ, Reachable s ∧ s.queue.items = [7] ∧ s.queue.size = 0 ∧ ¬ Counted s) ∧
      ∃ s : State Unit ℕ, Reachable s ∧ s.queue.items = [] ∧ s.queue.size = 2^32-1 ∧ ¬ Counted s := by
  constructor
  · have hrun : (run ThreadsafeQueue.step (initial Unit ℕ) (rangeOfOne.take 2)).isSome := rfl
    have hreach : Reachable _ := Reaches.of_run (fun _ _ => trivial) (Option.some_get hrun).symm
    exact ⟨_,hreach,rfl,rfl,fun h => absurd (h.empty.mp rfl) (List.cons_ne_nil 7 [])⟩
  · have hrun : (run ThreadsafeQueue.step (initial Unit ℕ) rangeOfOne).isSome := rfl
    have hreach : Reachable _ := Reaches.of_run (fun _ _ => trivial) (Option.some_get hrun).symm
    have hwrap : 2^32-1 ≠ 0 := by decide
    exact ⟨_,hreach,rfl,rfl,fun h => hwrap h.size⟩

def itemOfOne : List (Action Unit ℕ) := [.enqueue () 7,.locked () none,.dequeue () .dequeue,.locked () none]

theorem size_eq_length_itemOfOne : ∃ s : State Unit ℕ, run ThreadsafeQueue.step (initial Unit ℕ) itemOfOne = some s ∧
    ∀ before u, before <+: itemOfOne → run ThreadsafeQueue.step (initial Unit ℕ) before = some u → Counted u := by
  have hrun : (run ThreadsafeQueue.step (initial Unit ℕ) itemOfOne).isSome := rfl
  have hall : Along ThreadsafeQueue.step Tallied (initial Unit ℕ) itemOfOne := by
    refine .cons trivial rfl (.cons ⟨nofun,fun _ _ => by decide⟩ rfl ?_)
    exact .cons trivial rfl (.cons ⟨nofun,nofun⟩ rfl trivial)
  exact ⟨_,(Option.some_get hrun).symm,(size_eq_length_iff (Option.some_get hrun).symm).mpr hall⟩

end ThreadsafeQueue
end AudioOutput
