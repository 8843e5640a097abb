import AudioOutput.Transition

/-!
# The thread-safe queue

`ThreadsafeQueue` with any number of producers and consumers. A section under the
lock is one step, the notification in it included; a consumer that finds the queue
empty gives the lock up and goes to sleep within its section. Threads asleep may
wake up on their own, and a timeout may end a wait at any time.
-/

namespace AudioOutput
namespace ThreadsafeQueue

universe u

/-- `internal_queue` from its back, where items leave it, to its front, and `_size`. -/
structure Queue (α : Type u) where
  items : List α := []
  size : ℕ := 0

namespace Queue

variable {α : Type u}

/-- `_size++` and `_size--` on an `unsigned int`. -/
def increment (size : ℕ) : ℕ := (size+1)%2^32

def decrement (size : ℕ) : ℕ := (size+(2^32-1))%2^32

def enqueue (q : Queue α) (item : α) : Queue α := ⟨q.items ++ [item],increment q.size⟩

/-- `enqueueRange` leaves `_size` alone. -/
def enqueueRange (q : Queue α) (items : List α) : Queue α := { q with items := q.items ++ items }

/-- The loop of `dequeueRange`, which calls `actualDequeue` while there is something left. -/
def takeUpTo : ℕ → Queue α → List α × Queue α
  | 0, q => ([],q)
  | n+1, q =>
    match q.items with
    | [] => ([],q)
    | item :: rest =>
      let r := takeUpTo n ⟨rest,decrement q.size⟩
      (item :: r.1,r.2)

theorem takeUpTo_fst (n : ℕ) (q : Queue α) : (takeUpTo n q).1 = q.items.take n := by
  induction n generalizing q with
  | zero => simp [takeUpTo]
  | succ n ih =>
    unfold takeUpTo
    split
    · next h => simp [h]
    · next h => simp [h,ih]

theorem takeUpTo_items (n : ℕ) (q : Queue α) : (takeUpTo n q).2.items = q.items.drop n := by
  induction n generalizing q with
  | zero => simp [takeUpTo]
  | succ n ih =>
    unfold takeUpTo
    split
    · next h => simp [h]
    · next h => simp [h,ih]

theorem takeUpTo_append (n : ℕ) (q : Queue α) : (takeUpTo n q).1 ++ (takeUpTo n q).2.items = q.items := by
  rw [takeUpTo_fst,takeUpTo_items,List.take_append_drop]

end Queue

inductive Request
  | dequeue
  | dequeueWithTimeout
  | dequeueRange (count : ℤ)
  deriving DecidableEq

def Request.count : Request → ℕ
  | .dequeue | .dequeueWithTimeout => 1
  | .dequeueRange count => count.toNat

/-- Each point but `idle` and `asleep` is about to lock: `woken` and `expired` come out of the wait, and
`expired` does so by the timeout. -/
inductive Pc (α : Type u)
  | idle
  | enqueueing (item : α)
  | enqueueingRange (items : List α)
  | dequeueing (r : Request)
  | asleep (r : Request)
  | woken (r : Request)
  | expired

/-- The queue, the threads asleep in `enqueued_notify`, the program counters, and
the items put in and handed out so far. -/
structure State (T α : Type u) where
  queue : Queue α := {}
  waiters : List T := []
  thread : T → Pc α := fun _ => .idle
  put : List α := []
  handed : List α := []
  timeouts : ℕ := 0

variable {T α : Type u} [DecidableEq T]

def initial (T α : Type u) : State T α := {}

inductive Action (T α : Type u) : Type u
  | enqueue (t : T) (item : α)
  | enqueueRange (t : T) (items : List α)
  | dequeue (t : T) (r : Request)
  | locked (t : T) (wakes : Option T)
  | spurious (t : T)
  | timeout (t : T)

def State.setThread (s : State T α) (t : T) (pc : Pc α) : State T α :=
  { s with thread := Function.update s.thread t pc }

def State.wake (s : State T α) (t : T) (pc : Pc α) : State T α :=
  { s.setThread t pc with waiters := s.waiters.erase t }

/-- `notify_one`: any one of the threads asleep, or nobody when there is none. -/
def State.notifyOne (s : State T α) : Option T → Option (State T α)
  | none => if s.waiters = [] then some s else none
  | some c =>
    match s.thread c with
    | .asleep r => if c ∈ s.waiters then some (s.wake c (.woken r)) else none
    | _ => none

/-- `actualDequeue` as often as the request asks, and the end of the call. -/
def State.take (s : State T α) (t : T) (n : ℕ) : State T α :=
  let r := s.queue.takeUpTo n
  { s.setThread t .idle with queue := r.2, handed := s.handed ++ r.1 }

def State.test (s : State T α) (t : T) (r : Request) : State T α :=
  match s.queue.items with
  | [] => { s.setThread t (.asleep r) with waiters := t :: s.waiters }
  | _ :: _ => s.take t r.count

def begin (s : State T α) (t : T) (pc : Pc α) : Option (State T α) :=
  match s.thread t with
  | .idle => some (s.setThread t pc)
  | _ => none

/-- The section under the lock that the thread is about to run; only that of
`enqueue` notifies. -/
def locked (s : State T α) (t : T) (wakes : Option T) : Option (State T α) :=
  match s.thread t, wakes with
  | .enqueueing item, _ =>
    ({ s with queue := s.queue.enqueue item, put := s.put ++ [item] }.notifyOne wakes).map (State.setThread · t .idle)
  | .enqueueingRange items, none =>
    some { s.setThread t .idle with queue := s.queue.enqueueRange items, put := s.put ++ items }
  | .dequeueing r, none | .woken r, none => some (s.test t r)
  | .expired, none =>
    match s.queue.items with
    | [] => some { s.setThread t .idle with timeouts := s.timeouts+1 }
    | _ :: _ => some (s.take t 1)
  | _, _ => none

def step (s : State T α) : Action T α → Option (State T α)
  | .enqueue t item => begin s t (.enqueueing item)
  | .enqueueRange t items => begin s t (.enqueueingRange items)
  | .dequeue t r => begin s t (.dequeueing r)
  | .locked t wakes => locked s t wakes
  | .spurious t =>
    match s.thread t with
    | .asleep r => some (s.wake t (.woken r))
    | _ => none
  | .timeout t =>
    match s.thread t with
    | .asleep .dequeueWithTimeout => some (s.wake t .expired)
    | _ => none

def Reachable (s : State T α) : Prop := Transition.Reaches step (fun _ => True) (initial T α) s

inductive Move (s : State T α) : Action T α → State T α → Prop
  | beginEnqueue {t : T} {item : α} (hpc : s.thread t = .idle) :
      Move s (.enqueue t item) (s.setThread t (.enqueueing item))
  | beginEnqueueRange {t : T} {items : List α} (hpc : s.thread t = .idle) :
      Move s (.enqueueRange t items) (s.setThread t (.enqueueingRange items))
  | beginDequeue {t : T} {r : Request} (hpc : s.thread t = .idle) :
      Move s (.dequeue t r) (s.setThread t (.dequeueing r))
  | enqueueQuiet {t : T} {item : α} (hpc : s.thread t = .enqueueing item) (hnobody : s.waiters = []) :
      Move s (.locked t none)
        ({ s with queue := s.queue.enqueue item, put := s.put ++ [item] }.setThread t .idle)
  | enqueue {t c : T} {item : α} {r : Request} (hpc : s.thread t = .enqueueing item) (hc : s.thread c = .asleep r)
      (hmem : c ∈ s.waiters) :
      Move s (.locked t (some c))
        (({ s with queue := s.queue.enqueue item, put := s.put ++ [item] }.wake c (.woken r)).setThread t .idle)
  | enqueueRange {t : T} {items : List α} (hpc : s.thread t = .enqueueingRange items) :
      Move s (.locked t none)
        { s.setThread t .idle with queue := s.queue.enqueueRange items, put := s.put ++ items }
  | sleep {t : T} {r : Request} (hpc : s.thread t = .dequeueing r ∨ s.thread t = .woken r)
      (hempty : s.queue.items = []) :
      Move s (.locked t none) { s.setThread t (.asleep r) with waiters := t :: s.waiters }
  | take {t : T} {r : Request} (hpc : s.thread t = .dequeueing r ∨ s.thread t = .woken r)
      (hne : s.queue.items ≠ []) : Move s (.locked t none) (s.take t r.count)
  | expire {t : T} (hpc : s.thread t = .expired) (hempty : s.queue.items = []) :
      Move s (.locked t none) { s.setThread t .idle with timeouts := s.timeouts+1 }
  | takeExpired {t : T} (hpc : s.thread t = .expired) (hne : s.queue.items ≠ []) :
      Move s (.locked t none) (s.take t 1)
  | spurious {t : T} {r : Request} (hpc : s.thread t = .asleep r) : Move s (.spurious t) (s.wake t (.woken r))
  | timeout {t : T} (hpc : s.thread t = .asleep .dequeueWithTimeout) : Move s (.timeout t) (s.wake t .expired)

theorem begin_eq_some {s u : State T α} {t : T} {pc : Pc α} (h : begin s t pc = some u) :
    s.thread t = .idle ∧ u = s.setThread t pc := by
  unfold begin at h
  split at h
  case h_1 hpc =>
    cases h
    exact ⟨hpc,rfl⟩
  case h_2 => cases h

theorem Move.of_test {s : State T α} {t : T} {r : Request} (hpc : s.thread t = .dequeueing r ∨ s.thread t = .woken r) :
    Move s (.locked t none) (s.test t r) := by
  unfold State.test
  split
  case h_1 hempty => exact .sleep hpc hempty
  case h_2 hcons => exact .take hpc (by rw [hcons]; simp)

theorem Move.of_locked {s u : State T α} {t : T} {wakes : Option T} (h : locked s t wakes = some u) :
    Move s (.locked t wakes) u := by
  unfold locked at h
  split at h
  case h_1 item hpc =>
    obtain ⟨v,hv,rfl⟩ := Option.map_eq_some_iff.mp h
    unfold State.notifyOne at hv
    split at hv
    case h_1 =>
      by_cases hnobody : s.waiters = []
      · rw [if_pos hnobody,Option.some.injEq] at hv
        exact hv ▸ .enqueueQuiet hpc hnobody
      · rw [if_neg hnobody] at hv
        cases hv
    case h_2 c =>
      split at hv
      case h_1 r hc =>
        by_cases hmem : c ∈ s.waiters
        · rw [if_pos hmem,Option.some.injEq] at hv
          exact hv ▸ .enqueue hpc hc hmem
        · rw [if_neg hmem] at hv
          cases hv
      case h_2 => cases hv
  case h_2 items hpc => cases h; exact .enqueueRange hpc
  case h_3 r hpc => cases h; exact .of_test (Or.inl hpc)
  case h_4 r hpc => cases h; exact .of_test (Or.inr hpc)
  case h_5 hpc =>
    split at h
    case h_1 hempty => cases h; exact .expire hpc hempty
    case h_2 hcons => cases h; exact .takeExpired hpc (by rw [hcons]; simp)
  case h_6 => cases h

theorem Move.of_step {s u : State T α} {a : Action T α} (h : step s a = some u) : Move s a u := by
  cases a with
  | enqueue t item => obtain ⟨hpc,rfl⟩ := begin_eq_some h; exact .beginEnqueue hpc
  | enqueueRange t items => obtain ⟨hpc,rfl⟩ := begin_eq_some h; exact .beginEnqueueRange hpc
  | dequeue t r => obtain ⟨hpc,rfl⟩ := begin_eq_some h; exact .beginDequeue hpc
  | locked t wakes => exact .of_locked h
  | spurious t =>
    simp only [step] at h
    split at h
    case h_1 hpc => cases h; exact .spurious hpc
    case h_2 => cases h
  | timeout t =>
    simp only [step] at h
    split at h
    case h_1 hpc => cases h; exact .timeout hpc
    case h_2 => cases h

end ThreadsafeQueue
end AudioOutput
