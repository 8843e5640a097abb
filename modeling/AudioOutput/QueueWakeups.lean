import AudioOutput.ThreadsafeQueue

/-!
# Lost wakeups

`enqueue` wakes a consumer for each item, `enqueueRange` wakes nobody. As long as
ranges only arrive while nobody sleeps, the consumers awake are enough for the
items in the queue.
-/

namespace AudioOutput
namespace ThreadsafeQueue

open Transition

universe u
variable {T α : Type u}

/-- A thread that will neither notify nor take anything by its next step. -/
def Pc.passive : Pc α → Bool
  | .idle | .asleep _ | .enqueueingRange _ => true
  | _ => false

/-- Items in the queue, a consumer asleep, and nobody about to change either. -/
def LostWakeup (s : State T α) : Prop :=
  s.queue.items ≠ [] ∧ s.waiters ≠ [] ∧ ∀ t, (s.thread t).passive = true

/-- A range that is not empty arrives while nobody sleeps, and whoever goes to sleep has
asked for at least one item. -/
def Heeded (s : State T α) : Action T α → Prop
  | .locked t _ => (∀ items, s.thread t = .enqueueingRange items → items = [] ∨ s.waiters = []) ∧
      ∀ r, s.thread t = .dequeueing r ∨ s.thread t = .woken r → s.queue.items = [] → 0 < r.count
  | _ => True

def Pc.slept : Pc α → Option Request
  | .asleep r | .woken r => some r
  | _ => none

def Awake (thread : T → Pc α) (n : ℕ) : Prop :=
  ∃ ts : List T, ts.Nodup ∧ (∀ t ∈ ts, ∃ r, thread t = .woken r) ∧ n ≤ ts.length

structure Attended (s : State T α) : Prop where
  waiters : ∀ t, t ∈ s.waiters ↔ ∃ r, s.thread t = .asleep r
  nodup : s.waiters.Nodup
  counts : ∀ t r, (s.thread t).slept = some r → 0 < r.count
  awake : s.waiters ≠ [] → Awake s.thread s.queue.items.length

theorem initial_attended : Attended (initial T α) := by
  constructor <;> simp [initial,Pc.slept]

theorem awake_zero (thread : T → Pc α) : Awake thread 0 := ⟨[],by simp⟩

theorem Awake.mono {thread : T → Pc α} {m n : ℕ} (h : Awake thread n) (hle : m ≤ n) : Awake thread m := by
  obtain ⟨ts,hnodup,hwoken,hlen⟩ := h
  exact ⟨ts,hnodup,hwoken,hle.trans hlen⟩

theorem Attended.not_lostWakeup {s : State T α} (hs : Attended s) : ¬ LostWakeup s := by
  rintro ⟨hne,hwait,hpassive⟩
  obtain ⟨ts,-,hwoken,hlen⟩ := hs.awake hwait
  have hpos := List.length_pos_of_ne_nil hne
  obtain ⟨t,ht⟩ := List.exists_mem_of_length_pos (by omega : 0 < ts.length)
  obtain ⟨r,hr⟩ := hwoken t ht
  have h := hpassive t
  rw [hr] at h
  cases h

variable [DecidableEq T] {thread : T → Pc α} {t : T} {pc : Pc α} {n : ℕ}

theorem Awake.update (h : Awake thread n) (ht : ∀ r, thread t ≠ .woken r) :
    Awake (Function.update thread t pc) n := by
  obtain ⟨ts,hnodup,hwoken,hlen⟩ := h
  refine ⟨ts,hnodup,?_,hlen⟩
  intro v hv
  obtain ⟨r,hr⟩ := hwoken v hv
  have hne : v ≠ t := fun heq => ht r (heq ▸ hr)
  exact ⟨r,by rw [Function.update_of_ne hne,hr]⟩

theorem Awake.wake (h : Awake thread n) (ht : ∀ r, thread t ≠ .woken r) (r : Request) :
    Awake (Function.update thread t (.woken r)) (n+1) := by
  obtain ⟨ts,hnodup,hwoken,hlen⟩ := h
  have hnot : t ∉ ts := fun hmem => by
    obtain ⟨r',hr'⟩ := hwoken t hmem
    exact ht r' hr'
  refine ⟨t :: ts,List.nodup_cons.mpr ⟨hnot,hnodup⟩,?_,by simpa using hlen⟩
  intro v hv
  by_cases heq : v = t
  · exact ⟨r,by rw [heq,Function.update_self]⟩
  · obtain ⟨r',hr'⟩ := hwoken v ((List.mem_cons.mp hv).resolve_left heq)
    exact ⟨r',by rw [Function.update_of_ne heq,hr']⟩

theorem Awake.leave (h : Awake thread (n+1)) : Awake (Function.update thread t pc) n := by
  obtain ⟨ts,hnodup,hwoken,hlen⟩ := h
  refine ⟨ts.erase t,hnodup.erase t,?_,?_⟩
  · intro v hv
    obtain ⟨hne,hmem⟩ := hnodup.mem_erase_iff.mp hv
    obtain ⟨r,hr⟩ := hwoken v hmem
    exact ⟨r,by rw [Function.update_of_ne hne,hr]⟩
  · have hle : ts.length-1 ≤ (ts.erase t).length := List.le_length_erase
    omega

variable {s u : State T α} {a : Action T α}

theorem Attended.setThread (hs : Attended s) (hthread : u.thread = Function.update s.thread t pc)
    (hwaiters : u.waiters = s.waiters) (hold : ∀ r, s.thread t ≠ .asleep r) (hnew : ∀ r, pc ≠ .asleep r)
    (hcount : ∀ r, pc.slept = some r → 0 < r.count)
    (hawake : s.waiters ≠ [] → Awake u.thread u.queue.items.length) : Attended u where
  waiters v := by
    rw [hwaiters,hs.waiters v,hthread]
    by_cases hv : v = t
    · simp [hv,hold,hnew]
    · rw [Function.update_of_ne hv]
  nodup := hwaiters ▸ hs.nodup
  counts v r := by
    rw [hthread]
    by_cases hv : v = t
    · rw [hv,Function.update_self]
      exact hcount r
    · rw [Function.update_of_ne hv]
      exact hs.counts v r
  awake h := hawake (hwaiters ▸ h)

/-- A sleeper leaves the condition variable. -/
theorem Attended.wake {r : Request} (hs : Attended s) (hpc : s.thread t = .asleep r) (hthread : u.thread = Function.update s.thread t pc)
    (hwaiters : u.waiters = s.waiters.erase t) (hnew : pc = .woken r ∨ pc = .expired)
    (hawake : s.waiters ≠ [] → Awake u.thread u.queue.items.length) : Attended u where
  waiters v := by
    rw [hwaiters,hs.nodup.mem_erase_iff,hs.waiters v,hthread]
    by_cases hv : v = t
    · rcases hnew with rfl | rfl <;> simp [hv]
    · rw [Function.update_of_ne hv]
      simp [hv]
  nodup := hwaiters ▸ hs.nodup.erase t
  counts v r' := by
    rw [hthread]
    by_cases hv : v = t
    · rw [hv,Function.update_self]
      intro h
      rcases hnew with rfl | rfl
      · exact hs.counts t r' (by rw [hpc]; exact h)
      · cases h
    · rw [Function.update_of_ne hv]
      exact hs.counts v r'
  awake h := hawake fun hnil => h (by rw [hwaiters,hnil]; rfl)

/-- A consumer that takes something leaves no more behind than others are awake for. -/
theorem Attended.take {m : ℕ} (hs : Attended s) (hold : ∀ r, s.thread t ≠ .asleep r) (hm : 0 < m)
    (hne : s.queue.items ≠ []) : Attended (s.take t m) := by
  refine hs.setThread (show _ = Function.update s.thread t .idle from rfl) rfl hold (by simp) (by simp [Pc.slept]) fun hwait => ?_
  have hpos := List.length_pos_of_ne_nil hne
  have hless : (s.queue.takeUpTo m).2.items.length+1 ≤ s.queue.items.length := by
    rw [Queue.takeUpTo_items,List.length_drop]
    omega
  exact ((hs.awake hwait).mono hless).leave

/-- A consumer goes to sleep at an empty queue. -/
theorem Attended.sleep {r : Request} (hs : Attended s) (hold : ∀ r, s.thread t ≠ .asleep r) (hcount : 0 < r.count)
    (hempty : s.queue.items = []) :
    Attended { s.setThread t (.asleep r) with waiters := t :: s.waiters } where
  waiters v := by
    by_cases hv : v = t
    · simp [hv,State.setThread]
    · simp [hv,State.setThread,hs.waiters v]
  nodup := by
    refine List.nodup_cons.mpr ⟨fun hmem => ?_,hs.nodup⟩
    obtain ⟨r',hr'⟩ := (hs.waiters t).mp hmem
    exact hold r' hr'
  counts v r' := by
    simp only [State.setThread]
    by_cases hv : v = t
    · rw [hv,Function.update_self]
      intro h
      cases h
      exact hcount
    · rw [Function.update_of_ne hv]
      exact hs.counts v r'
  awake _ := by
    simp only [State.setThread,hempty]
    exact awake_zero _

theorem Attended.step (hs : Attended s) (hp : Heeded s a) (hm : Move s a u) : Attended u := by
  cases hm with
  | beginEnqueue hpc | beginEnqueueRange hpc | beginDequeue hpc =>
    exact hs.setThread rfl rfl (by simp [hpc]) (by simp) (by simp [Pc.slept])
      fun h => (hs.awake h).update (by simp [hpc])
  | enqueueQuiet hpc hnobody =>
    exact hs.setThread rfl rfl (by simp [hpc]) (by simp) (by simp [Pc.slept]) fun h => absurd hnobody h
  | @enqueue t c item r hpc hc hmem =>
    have hne : t ≠ c := fun heq => by rw [heq,hc] at hpc; cases hpc
    have hwoken : Attended ({ s with queue := s.queue.enqueue item, put := s.put ++ [item] }.wake c (.woken r)) := by
      refine hs.wake hc rfl rfl (Or.inl rfl) fun h => ?_
      have hlen : (s.queue.enqueue item).items.length = s.queue.items.length+1 := by simp [Queue.enqueue]
      have hmore := (hs.awake h).wake (t := c) (by simp [hc]) r
      exact hlen ▸ hmore
    have hstill : State.thread ({ s with queue := s.queue.enqueue item, put := s.put ++ [item] }.wake c (.woken r)) t =
        .enqueueing item := (Function.update_of_ne hne ..).trans hpc
    exact hwoken.setThread rfl rfl (by simp [hstill]) (by simp) (by simp [Pc.slept])
      fun h => (hwoken.awake h).update (by simp [hstill])
  | @enqueueRange t items hpc =>
    refine hs.setThread (show _ = Function.update s.thread t .idle from rfl) rfl (by simp [hpc]) (by simp) (by simp [Pc.slept]) fun h => ?_
    have hnil : items = [] := (hp.1 items hpc).resolve_right h
    have hsame : (s.queue.enqueueRange items).items = s.queue.items := by simp [Queue.enqueueRange,hnil]
    simp only [State.setThread,hsame]
    exact (hs.awake h).update (by simp [hpc])
  | @sleep t r hpc hempty =>
    exact hs.sleep (by rcases hpc with h | h <;> simp [h]) (hp.2 r hpc hempty) hempty
  | @take t r hpc hne =>
    rcases hpc with hfirst | hagain
    -- one that has not slept is not counted on, whatever it asks for
    · refine hs.setThread (show _ = Function.update s.thread t .idle from rfl) rfl (by simp [hfirst]) (by simp)
        (by simp [Pc.slept]) fun h => ?_
      have hless : (s.queue.takeUpTo r.count).2.items.length ≤ s.queue.items.length := by
        rw [Queue.takeUpTo_items,List.length_drop]
        omega
      exact ((hs.awake h).mono hless).update (by simp [hfirst])
    · have hcount : 0 < r.count := hs.counts t r (by rw [hagain]; rfl)
      exact hs.take (by simp [hagain]) hcount hne
  | expire hpc hempty =>
    exact hs.setThread rfl rfl (by simp [hpc]) (by simp) (by simp [Pc.slept])
      fun h => (hs.awake h).update (by simp [hpc])
  | takeExpired hpc hne => exact hs.take (by simp [hpc]) Nat.one_pos hne
  | spurious hpc =>
    exact hs.wake hpc rfl rfl (Or.inl rfl) fun h => (hs.awake h).update (by simp [hpc])
  | timeout hpc =>
    exact hs.wake hpc rfl rfl (Or.inr rfl) fun h => (hs.awake h).update (by simp [hpc])

/-- In a run whose ranges arrive only while nobody sleeps, and whose sleepers have asked for
at least one item, no state is reached in which a wakeup has been lost. -/
theorem no_lost_wakeup {as : List (Action T α)} (h : run ThreadsafeQueue.step (initial T α) as = some s)
    (hall : Along ThreadsafeQueue.step Heeded (initial T α) as) : ¬ LostWakeup s := by
  have hstep (v : State T α) (b : Action T α) (w : State T α) (hv : Attended v) (hp : Heeded v b)
      (hb : ThreadsafeQueue.step v b = some w) : Attended w := hv.step hp (.of_step hb)
  exact (hall.invariant hstep h initial_attended).not_lostWakeup

def rangeForSleeper : List (Action Bool ℕ) :=
  [.dequeue true (.dequeueRange 5),.locked true none,.enqueueRange false [7],.locked false none]

theorem wakeup_lost_after_enqueueRange : ∃ s : State Bool ℕ, Reachable s ∧ s.queue.items = [7] ∧
    s.thread true = .asleep (.dequeueRange 5) ∧ s.thread false = .idle ∧ LostWakeup s := by
  have hrun : (run ThreadsafeQueue.step (initial Bool ℕ) rangeForSleeper).isSome := rfl
  have hreach : Reachable _ := Reaches.of_run (fun _ _ => trivial) (Option.some_get hrun).symm
  have hlost : LostWakeup ((run ThreadsafeQueue.step (initial Bool ℕ) rangeForSleeper).get hrun) :=
    ⟨List.cons_ne_nil 7 [],List.cons_ne_nil true [],fun t => by cases t <;> rfl⟩
  exact ⟨_,hreach,rfl,rfl,rfl,hlost⟩

def itemForSleeper : List (Action Bool ℕ) :=
  [.dequeue true (.dequeueRange 5),.locked true none,.enqueue false 7,.locked false (some true),
    .enqueueRange false [8],.locked false none]

theorem no_lost_wakeup_itemForSleeper : ∃ s : State Bool ℕ,
    run ThreadsafeQueue.step (initial Bool ℕ) itemForSleeper = some s ∧ ¬ LostWakeup s := by
  have hrun : (run ThreadsafeQueue.step (initial Bool ℕ) itemForSleeper).isSome := rfl
  have hall : Along ThreadsafeQueue.step Heeded (initial Bool ℕ) itemForSleeper := by
    refine .cons trivial rfl (.cons ⟨fun _ h => (by cases h),fun r h _ => ?_⟩ rfl ?_)
    · rcases h with h | h <;> cases h
      decide
    · refine .cons trivial rfl (.cons ⟨fun _ h => (by cases h),fun r h => ?_⟩ rfl ?_)
      · rcases h with h | h <;> cases h
      · refine .cons trivial rfl (.cons ⟨fun _ _ => Or.inr rfl,fun r h => ?_⟩ rfl trivial)
        rcases h with h | h <;> cases h
  exact ⟨_,(Option.some_get hrun).symm,no_lost_wakeup (Option.some_get hrun).symm hall⟩

end ThreadsafeQueue
end AudioOutput
