import AudioOutput.Buffer
import AudioOutput.ThreadsafeQueue

/-!
# The thread pool

`ThreadPool` as the thread that submits, starts and stops, and one worker for each
queue. A section under a queue's lock is one step, as in `ThreadsafeQueue`; so are
one call of a submitted callable, an access to a barrier's counter or promise, and
a join. Only the submitting thread reads or writes `job_queue_pointer`, so what a call
does to the queues is known when it begins.
-/

namespace AudioOutput
namespace ThreadPool

open ThreadsafeQueue (Queue)

universe u

/-- One invocation asked for: what is called, and for `submitJobWithResult` the
number of the promise that its result goes to. -/
abbrev Call (X : Type u) := X × Option ℕ

/-- The callable of a job: the user's own, or the executor of `map` over a subrange. -/
inductive Callable (X : Type u)
  | single (x : X)
  | subrange (xs : List X)
  deriving DecidableEq

/-- A callable in a queue, with the promise of its packaged task. `epoch` is how
many barriers have been submitted before it. -/
structure Job (X : Type u) where
  callable : Callable X
  promise : Option ℕ
  epoch : ℕ
  deriving DecidableEq

def Job.calls {X : Type u} (j : Job X) : List (Call X) :=
  match j.callable with
  | .single x => [(x,j.promise)]
  | .subrange xs => xs.map (·,none)

/-- The functions in a queue; `barrier b` is a copy of the job of the `b`-th barrier. -/
inductive Item (X : Type u)
  | job (j : Job X)
  | barrier (b : ℕ)
  | poison
  deriving DecidableEq

/-- Points of `workerThreadFunction`: `fetching` and `woken` are about to lock in `dequeueRange`,
`releasing` and `waiting` are in the job of a barrier, at its promise and at its future. `batch` is
what is left of `jobs` after the element being dealt with. -/
inductive WorkerPc (X R : Type u)
  | unstarted
  | fetching
  | asleep
  | woken
  | looping (batch : List (Item X))
  | running (j : Job X) (left : List (Call X)) (result : Option R) (batch : List (Item X))
  | releasing (b : ℕ) (batch : List (Item X))
  | waiting (b : ℕ) (batch : List (Item X))
  | returned

inductive Put (X : Type u)
  | enqueue (i : ℕ) (item : Item X)
  | enqueueRange (i : ℕ) (items : List (Item X))

/-- Points of the calls: `poisoning`, `joining` and `clearing` are the two loops of `stop` and what is
behind them, `creating` and `spawning` are `start`. `restart` is the new thread count while `stop`
runs inside `setThreadCount`. -/
inductive SubmitterPc (X : Type u)
  | idle
  | submitting (puts : List (Put X))
  | poisoning (i : ℕ) (restart : Option ℕ)
  | joining (i : ℕ) (restart : Option ℕ)
  | clearing (restart : Option ℕ)
  | creating
  | spawning (i : ℕ)

/-- The members of the class, the barriers' shared variables, the futures, the
program counters, and the history: the calls asked for and executed, the jobs put
into queues, begun and finished, and what exiting workers have left behind. -/
structure State (X R : Type u) where
  threadCount : ℕ
  jobQueuePointer : ℕ := 0
  running : Bool := false
  queueCount : ℕ := 0
  queue : ℕ → Queue (Item X) := fun _ => {}
  threads : ℕ := 0
  worker : ℕ → WorkerPc X R := fun _ => .unstarted
  submitter : SubmitterPc X := .idle
  counter : ℕ → ℕ := fun _ => 0
  goal : ℕ → ℕ := fun _ => 0
  released : ℕ → Bool := fun _ => false
  barriers : ℕ := 0
  future : ℕ → Option (Option R) := fun _ => none
  promises : ℕ := 0
  submitted : List (Call X) := []
  executed : List (Call X × R) := []
  jobs : List (Job X) := []
  begun : List (Job X) := []
  finished : List (Job X) := []
  abandoned : List (Item X) := []

variable {X R : Type u}

def initial (X R : Type u) (threadCount : ℕ) : State X R where
  threadCount := threadCount

/-- `job_queues[job_queue_pointer]->enqueue(job)` and the new pointer. -/
def submitJob (n pointer : ℕ) (item : Item X) : List (Put X) × ℕ := ([.enqueue pointer item],(pointer+1)%n)

def submitJobRange (n : ℕ) : ℕ → List (Item X) → List (Put X) × ℕ
  | pointer, [] => ([],pointer)
  | pointer, item :: rest =>
    let first := submitJob n pointer item
    let others := submitJobRange n first.2 rest
    (first.1 ++ others.1,others.2)

def submitJobToAllThreads (queueCount pointer : ℕ) (item : Item X) : List (Put X) × ℕ :=
  ((List.range queueCount).map (Put.enqueue · item),pointer)

/-- The length of a range as an `int`. -/
def rangeSize (length : ℕ) : ℤ := (length : ℤ).bmod (2^32)

/-- `size/thread_count`; with a negative quotient the iterators leave the range. -/
def perThread (n length : ℕ) : Option ℕ :=
  let quotient := (rangeSize length).tdiv n
  if quotient < 0 then none else some quotient.toNat

def submitJobRangeUnordered (n pointer : ℕ) (items : List (Item X)) : Option (List (Put X) × ℕ) :=
  if rangeSize items.length = 0 then some ([],pointer)
  else (perThread n items.length).map fun k =>
    let spread := (List.range n).map fun i => Put.enqueueRange ((pointer+i)%n) (Buffer.slice items (i*k) k)
    let rest := submitJobRange n pointer (items.drop (n*k))
    (spread ++ rest.1,rest.2)

def subranges (n : ℕ) (xs : List X) : Option (List (List X)) :=
  (perThread n xs.length).map fun k =>
    let rest := xs.drop (n*k)
    (List.range n).map (fun i => Buffer.slice xs (i*k) k) ++ if rest.isEmpty then [] else [rest]

/-- Packaged tasks for callables, their promises numbered from `promise` on. -/
def packagedTasks (epoch : ℕ) : ℕ → List (Callable X) → List (Item X)
  | _, [] => []
  | promise, c :: rest => .job ⟨c,some promise,epoch⟩ :: packagedTasks epoch (promise+1) rest

def submitBarrier (n pointer b : ℕ) : List (Put X) × ℕ :=
  submitJobRange n pointer (List.replicate n (.barrier b))

inductive Request (X : Type u)
  | submitJob (x : X)
  | submitJobWithResult (x : X)
  | submitJobRange (xs : List X)
  | submitJobRangeUnordered (xs : List X)
  | map (xs : List X)
  | submitJobToAllThreads (x : X)
  | submitBarrier

inductive Action (X R : Type u) : Type u
  | request (q : Request X)
  | start
  | stop
  | setThreadCount (n : ℕ)
  | submitter
  | worker (i : ℕ)
  | call (i : ℕ) (r : R)
  | spurious (i : ℕ)

def plain (epoch : ℕ) (x : X) : Item X := .job ⟨.single x,none,epoch⟩

def Put.index : Put X → ℕ
  | .enqueue i _ | .enqueueRange i _ => i

def Put.items : Put X → List (Item X)
  | .enqueue _ item => [item]
  | .enqueueRange _ items => items

def Item.job? : Item X → Option (Job X)
  | .job j => some j
  | _ => none

/-- The queue operations of a request, the new pointer, the calls it asks for, and
the promises it makes. -/
def plan (s : State X R) : Request X → Option ((List (Put X) × ℕ) × List (Call X) × ℕ)
  | .submitJob x =>
    some (submitJob s.threadCount s.jobQueuePointer (plain s.barriers x),[(x,none)],0)
  | .submitJobWithResult x =>
    some (submitJobRange s.threadCount s.jobQueuePointer (packagedTasks s.barriers s.promises [.single x]),
      [(x,some s.promises)],1)
  | .submitJobRange xs =>
    some (submitJobRange s.threadCount s.jobQueuePointer (xs.map (plain s.barriers)),xs.map (·,none),0)
  | .submitJobRangeUnordered xs =>
    (submitJobRangeUnordered s.threadCount s.jobQueuePointer (xs.map (plain s.barriers))).map
      fun p => (p,xs.map (·,none),0)
  | .map xs =>
    (subranges s.threadCount xs).map fun rs =>
      (submitJobRange s.threadCount s.jobQueuePointer (packagedTasks s.barriers s.promises (rs.map .subrange)),
        xs.map (·,none),rs.length)
  | .submitJobToAllThreads x =>
    some (submitJobToAllThreads s.queueCount s.jobQueuePointer (plain s.barriers x),
      List.replicate s.queueCount (x,none),0)
  | .submitBarrier => some (submitBarrier s.threadCount s.jobQueuePointer s.barriers,[],0)

def State.accept (s : State X R) (q : Request X) (r : (List (Put X) × ℕ) × List (Call X) × ℕ) : State X R :=
  { s with
    submitter := .submitting r.1.1
    jobQueuePointer := r.1.2
    submitted := s.submitted ++ r.2.1
    promises := s.promises+r.2.2
    jobs := s.jobs ++ (r.1.1.flatMap Put.items).filterMap Item.job?
    barriers := match q with | .submitBarrier => s.barriers+1 | _ => s.barriers
    goal := match q with
      | .submitBarrier => Function.update s.goal s.barriers s.threadCount
      | _ => s.goal }

/-- A call may begin when the thread that submits is between calls and the pool runs. -/
def request (s : State X R) (q : Request X) : Option (State X R) :=
  match s.submitter, s.running with
  | .idle, true => (plan s q).map (s.accept q)
  | _, _ => none

/-- `notify_one` on a queue whose one consumer is this worker. -/
def WorkerPc.notify : WorkerPc X R → WorkerPc X R
  | .asleep => .woken
  | pc => pc

def Put.apply (s : State X R) : Put X → State X R
  | .enqueue i item => { s with
      queue := Function.update s.queue i ((s.queue i).enqueue item)
      worker := Function.update s.worker i (s.worker i).notify }
  | .enqueueRange i items => { s with queue := Function.update s.queue i ((s.queue i).enqueueRange items) }

/-- `setThreadCount` goes on with `start`. -/
def afterStop : Option ℕ → SubmitterPc X
  | none => .idle
  | some _ => .creating

def submitterThread (s : State X R) : Option (State X R) :=
  match s.submitter with
  | .idle => none
  | .submitting [] => some { s with submitter := .idle }
  | .submitting (put :: rest) => some { put.apply s with submitter := .submitting rest }
  | .poisoning i restart =>
    if i < s.queueCount then
      some { (Put.enqueue i Item.poison).apply s with submitter := .poisoning (i+1) restart }
    else some { s with running := false, submitter := .joining 0 restart }
  | .joining i restart =>
    if i < s.threads then
      match s.worker i with
      | .returned => some { s with submitter := .joining (i+1) restart }
      | _ => none
    else some { s with submitter := .clearing restart }
  | .clearing restart => some { s with
      threads := 0
      worker := fun _ => .unstarted
      queueCount := 0
      queue := fun _ => {}
      jobQueuePointer := 0
      threadCount := restart.getD s.threadCount
      submitter := afterStop restart }
  | .creating => some { s with
      running := true
      queueCount := s.threadCount
      queue := fun _ => {}
      submitter := .spawning 0 }
  | .spawning i =>
    if i < s.threadCount then
      some { s with worker := Function.update s.worker i .fetching, threads := i+1, submitter := .spawning (i+1) }
    else some { s with submitter := .idle }

def State.setWorker (s : State X R) (i : ℕ) (pc : WorkerPc X R) : State X R :=
  { s with worker := Function.update s.worker i pc }

def fetch (s : State X R) (i : ℕ) : State X R :=
  match (s.queue i).items with
  | [] => s.setWorker i .asleep
  | _ :: _ =>
    let r := (s.queue i).takeUpTo 5
    { s.setWorker i (.looping r.1) with queue := Function.update s.queue i r.2 }

/-- `jobs[i]()`: the job begins, or a barrier counts, or the poison ends the thread. -/
def beginItem (s : State X R) (i : ℕ) (batch : List (Item X)) : Item X → State X R
  | .job j => { s.setWorker i (.running j j.calls none batch) with begun := s.begun ++ [j] }
  | .barrier b =>
    { s.setWorker i (if s.counter b+1 = s.goal b then .releasing b batch else .waiting b batch) with
      counter := Function.update s.counter b (s.counter b+1) }
  | .poison => { s.setWorker i .returned with abandoned := s.abandoned ++ batch ++ (s.queue i).items }

def finishJob (s : State X R) (i : ℕ) (j : Job X) (result : Option R) (batch : List (Item X)) : State X R :=
  { s.setWorker i (.looping batch) with
    finished := s.finished ++ [j]
    future := match j.promise with | none => s.future | some p => Function.update s.future p (some result) }

def workerThread (s : State X R) (i : ℕ) : Option (State X R) :=
  match s.worker i with
  | .fetching | .woken => some (fetch s i)
  | .looping [] => some (s.setWorker i .fetching)
  | .looping (item :: batch) => some (beginItem s i batch item)
  | .running j [] result batch => some (finishJob s i j result batch)
  | .releasing b batch =>
    some { s.setWorker i (.looping batch) with released := Function.update s.released b true }
  | .waiting b batch => if s.released b = true then some (s.setWorker i (.looping batch)) else none
  | _ => none

/-- The result of the user's function is that of the callable, unless it is an executor. -/
def Callable.result (r : R) : Callable X → Option R
  | .single _ => some r
  | .subrange _ => none

def callOnce (s : State X R) (i : ℕ) (r : R) : Option (State X R) :=
  match s.worker i with
  | .running j (c :: left) _ batch =>
    some { s.setWorker i (.running j left (j.callable.result r) batch) with executed := s.executed ++ [(c,r)] }
  | _ => none

def step (s : State X R) : Action X R → Option (State X R)
  | .request q => request s q
  | .start =>
    match s.submitter, s.running with
    | .idle, false => some { s with submitter := .creating }
    | _, _ => none
  | .stop =>
    match s.submitter with
    | .idle => some { s with submitter := .poisoning 0 none }
    | _ => none
  | .setThreadCount n =>
    match s.submitter with
    | .idle =>
      if n = 0 then none
      else if s.running then some { s with submitter := .poisoning 0 (some n) }
      else some { s with threadCount := n }
    | _ => none
  | .submitter => submitterThread s
  | .worker i => workerThread s i
  | .call i r => callOnce s i r
  | .spurious i =>
    match s.worker i with
    | .asleep => some (s.setWorker i .woken)
    | _ => none

/-- What a run comes to. Where it is undefined an iterator has left its range, and the
program means nothing from there on. -/
inductive Outcome (X R : Type u) : Type u
  | defined (s : State X R)
  | undefined

/-- A range is submitted, of which the part for each thread has a negative length. -/
def State.leavesRange (s : State X R) : Action X R → Bool
  | .request q => match s.submitter, s.running with
    | .idle, true => (plan s q).isNone
    | _, _ => false
  | _ => false

def execute : Outcome X R → Action X R → Option (Outcome X R)
  | .defined s, a => if s.leavesRange a then some .undefined else (step s a).map .defined
  | .undefined, _ => none

def Reachable (threadCount : ℕ) (s : State X R) : Prop :=
  Transition.Reaches step (fun _ => True) (initial X R threadCount) s

inductive Move (s : State X R) : Action X R → State X R → Prop
  | request {q : Request X} {r : (List (Put X) × ℕ) × List (Call X) × ℕ} (hpc : s.submitter = .idle)
      (hrun : s.running = true) (hplan : plan s q = some r) : Move s (.request q) (s.accept q r)
  | start (hpc : s.submitter = .idle) (hrun : s.running = false) :
      Move s .start { s with submitter := .creating }
  | stop (hpc : s.submitter = .idle) : Move s .stop { s with submitter := .poisoning 0 none }
  | restart {n : ℕ} (hpc : s.submitter = .idle) (hn : n ≠ 0) (hrun : s.running = true) :
      Move s (.setThreadCount n) { s with submitter := .poisoning 0 (some n) }
  | setThreadCount {n : ℕ} (hpc : s.submitter = .idle) (hn : n ≠ 0) (hrun : s.running = false) :
      Move s (.setThreadCount n) { s with threadCount := n }
  | submitted (hpc : s.submitter = .submitting []) : Move s .submitter { s with submitter := .idle }
  | put {p : Put X} {rest : List (Put X)} (hpc : s.submitter = .submitting (p :: rest)) :
      Move s .submitter { p.apply s with submitter := .submitting rest }
  | poison {i : ℕ} {restart : Option ℕ} (hpc : s.submitter = .poisoning i restart) (hlt : i < s.queueCount) :
      Move s .submitter { (Put.enqueue i Item.poison).apply s with submitter := .poisoning (i+1) restart }
  | poisoned {i : ℕ} {restart : Option ℕ} (hpc : s.submitter = .poisoning i restart) (hge : s.queueCount ≤ i) :
      Move s .submitter { s with running := false, submitter := .joining 0 restart }
  | join {i : ℕ} {restart : Option ℕ} (hpc : s.submitter = .joining i restart) (hlt : i < s.threads)
      (hreturned : s.worker i = .returned) : Move s .submitter { s with submitter := .joining (i+1) restart }
  | joined {i : ℕ} {restart : Option ℕ} (hpc : s.submitter = .joining i restart) (hge : s.threads ≤ i) :
      Move s .submitter { s with submitter := .clearing restart }
  | clear {restart : Option ℕ} (hpc : s.submitter = .clearing restart) :
      Move s .submitter { s with
        threads := 0
        worker := fun _ => .unstarted
        queueCount := 0
        queue := fun _ => {}
        jobQueuePointer := 0
        threadCount := restart.getD s.threadCount
        submitter := afterStop restart }
  | create (hpc : s.submitter = .creating) :
      Move s .submitter { s with
        running := true
        queueCount := s.threadCount
        queue := fun _ => {}
        submitter := .spawning 0 }
  | spawn {i : ℕ} (hpc : s.submitter = .spawning i) (hlt : i < s.threadCount) :
      Move s .submitter { s with
        worker := Function.update s.worker i .fetching, threads := i+1, submitter := .spawning (i+1) }
  | spawned {i : ℕ} (hpc : s.submitter = .spawning i) (hge : s.threadCount ≤ i) :
      Move s .submitter { s with submitter := .idle }
  | sleep {i : ℕ} (hpc : s.worker i = .fetching ∨ s.worker i = .woken) (hempty : (s.queue i).items = []) :
      Move s (.worker i) (s.setWorker i .asleep)
  | fetch {i : ℕ} (hpc : s.worker i = .fetching ∨ s.worker i = .woken) (hne : (s.queue i).items ≠ []) :
      Move s (.worker i) { s.setWorker i (.looping ((s.queue i).takeUpTo 5).1) with
        queue := Function.update s.queue i ((s.queue i).takeUpTo 5).2 }
  | refetch {i : ℕ} (hpc : s.worker i = .looping []) : Move s (.worker i) (s.setWorker i .fetching)
  | beginJob {i : ℕ} {j : Job X} {batch : List (Item X)} (hpc : s.worker i = .looping (.job j :: batch)) :
      Move s (.worker i) { s.setWorker i (.running j j.calls none batch) with begun := s.begun ++ [j] }
  | beginBarrier {i b : ℕ} {batch : List (Item X)} (hpc : s.worker i = .looping (.barrier b :: batch)) :
      Move s (.worker i)
        { s.setWorker i (if s.counter b+1 = s.goal b then .releasing b batch else .waiting b batch) with
          counter := Function.update s.counter b (s.counter b+1) }
  | exit {i : ℕ} {batch : List (Item X)} (hpc : s.worker i = .looping (.poison :: batch)) :
      Move s (.worker i)
        { s.setWorker i .returned with abandoned := s.abandoned ++ batch ++ (s.queue i).items }
  | finish {i : ℕ} {j : Job X} {result : Option R} {batch : List (Item X)} (hpc : s.worker i = .running j [] result batch) :
      Move s (.worker i) (finishJob s i j result batch)
  | release {i b : ℕ} {batch : List (Item X)} (hpc : s.worker i = .releasing b batch) :
      Move s (.worker i) { s.setWorker i (.looping batch) with released := Function.update s.released b true }
  | pass {i b : ℕ} {batch : List (Item X)} (hpc : s.worker i = .waiting b batch) (hreleased : s.released b = true) :
      Move s (.worker i) (s.setWorker i (.looping batch))
  | call {i : ℕ} {r : R} {j : Job X} {c : Call X} {left : List (Call X)} {old : Option R} {batch : List (Item X)}
      (hpc : s.worker i = .running j (c :: left) old batch) :
      Move s (.call i r)
        { s.setWorker i (.running j left (j.callable.result r) batch) with
          executed := s.executed ++ [(c,r)] }
  | spurious {i : ℕ} (hpc : s.worker i = .asleep) : Move s (.spurious i) (s.setWorker i .woken)

theorem Move.of_request {s t : State X R} {q : Request X} (h : ThreadPool.request s q = some t) :
    Move s (.request q) t := by
  unfold ThreadPool.request at h
  split at h
  case h_1 hpc hrun =>
    obtain ⟨r,hr,rfl⟩ := Option.map_eq_some_iff.mp h
    exact .request hpc hrun hr
  case h_2 => cases h

theorem Move.of_submitter {s t : State X R} (h : submitterThread s = some t) : Move s .submitter t := by
  unfold submitterThread at h
  split at h
  case h_1 => cases h
  case h_2 hpc => cases h; exact .submitted hpc
  case h_3 hpc => cases h; exact .put hpc
  case h_4 i restart hpc =>
    by_cases hlt : i < s.queueCount
    · rw [if_pos hlt,Option.some.injEq] at h
      exact h ▸ .poison hpc hlt
    · rw [if_neg hlt,Option.some.injEq] at h
      exact h ▸ .poisoned hpc (not_lt.mp hlt)
  case h_5 i restart hpc =>
    by_cases hlt : i < s.threads
    · rw [if_pos hlt] at h
      split at h
      case h_1 hreturned => cases h; exact .join hpc hlt hreturned
      case h_2 => cases h
    · rw [if_neg hlt,Option.some.injEq] at h
      exact h ▸ .joined hpc (not_lt.mp hlt)
  case h_6 hpc => cases h; exact .clear hpc
  case h_7 hpc => cases h; exact .create hpc
  case h_8 i hpc =>
    by_cases hlt : i < s.threadCount
    · rw [if_pos hlt,Option.some.injEq] at h
      exact h ▸ .spawn hpc hlt
    · rw [if_neg hlt,Option.some.injEq] at h
      exact h ▸ .spawned hpc (not_lt.mp hlt)

theorem Move.of_fetch {s : State X R} {i : ℕ} (hpc : s.worker i = .fetching ∨ s.worker i = .woken) :
    Move s (.worker i) (ThreadPool.fetch s i) := by
  unfold ThreadPool.fetch
  split
  case h_1 hempty => exact .sleep hpc hempty
  case h_2 hcons => exact .fetch hpc (by rw [hcons]; simp)

theorem Move.of_worker {s t : State X R} {i : ℕ} (h : workerThread s i = some t) : Move s (.worker i) t := by
  unfold workerThread at h
  split at h
  case h_1 hpc => cases h; exact .of_fetch (Or.inl hpc)
  case h_2 hpc => cases h; exact .of_fetch (Or.inr hpc)
  case h_3 hpc => cases h; exact .refetch hpc
  case h_4 item batch hpc =>
    cases h
    cases item with
    | job j => exact .beginJob hpc
    | barrier b => exact .beginBarrier hpc
    | poison => exact .exit hpc
  case h_5 hpc => cases h; exact .finish hpc
  case h_6 hpc => cases h; exact .release hpc
  case h_7 b batch hpc =>
    by_cases hreleased : s.released b = true
    · rw [if_pos hreleased,Option.some.injEq] at h
      exact h ▸ .pass hpc hreleased
    · rw [if_neg hreleased] at h
      cases h
  case h_8 => cases h

theorem Move.of_call {s t : State X R} {i : ℕ} {r : R} (h : callOnce s i r = some t) : Move s (.call i r) t := by
  unfold callOnce at h
  split at h
  case h_1 hpc => cases h; exact .call hpc
  case h_2 => cases h

theorem Move.of_setThreadCount {s t : State X R} {n : ℕ} (h : step s (.setThreadCount n) = some t) :
    Move s (.setThreadCount n) t := by
  simp only [step] at h
  split at h
  case h_1 hpc =>
    by_cases hn : n = 0
    · rw [if_pos hn] at h
      cases h
    · by_cases hrun : s.running = true
      · rw [if_neg hn,if_pos hrun,Option.some.injEq] at h
        exact h ▸ .restart hpc hn hrun
      · rw [if_neg hn,if_neg hrun,Option.some.injEq] at h
        exact h ▸ .setThreadCount hpc hn (by simpa using hrun)
  case h_2 => cases h

theorem Move.of_step {s t : State X R} {a : Action X R} (h : step s a = some t) : Move s a t := by
  cases a with
  | request q => exact .of_request h
  | start =>
    simp only [step] at h
    split at h
    case h_1 hpc hrun => cases h; exact .start hpc hrun
    case h_2 => cases h
  | stop =>
    simp only [step] at h
    split at h
    case h_1 hpc => cases h; exact .stop hpc
    case h_2 => cases h
  | setThreadCount n => exact .of_setThreadCount h
  | submitter => exact .of_submitter h
  | worker i => exact .of_worker h
  | call i r => exact .of_call h
  | spurious i =>
    simp only [step] at h
    split at h
    case h_1 hpc => cases h; exact .spurious hpc
    case h_2 => cases h

theorem State.leavesRange_iff {s : State X R} {a : Action X R} : s.leavesRange a = true ↔
    ∃ q, a = .request q ∧ s.submitter = .idle ∧ s.running = true ∧ plan s q = none := by
  unfold State.leavesRange
  split
  case h_1 q =>
    split
    case h_1 hpc hrun => simp [hpc,hrun]
    case h_2 hbusy =>
      simp only [Bool.false_eq_true,Action.request.injEq,false_iff]
      rintro ⟨_,-,hpc,hrun,-⟩
      exact hbusy hpc hrun
  case h_2 hother =>
    simp only [Bool.false_eq_true,false_iff]
    rintro ⟨q,rfl,-⟩
    exact hother q rfl

theorem execute_cases {s : State X R} {a : Action X R} {o : Outcome X R} (h : execute (.defined s) a = some o) :
    (∃ t, o = .defined t ∧ step s a = some t) ∨ (o = .undefined ∧ ∃ q, a = .request q ∧ plan s q = none) := by
  rw [execute] at h
  split at h
  case isTrue hleaves =>
    cases h
    obtain ⟨q,ha,-,-,hplan⟩ := State.leavesRange_iff.mp hleaves
    exact Or.inr ⟨rfl,q,ha,hplan⟩
  case isFalse =>
    obtain ⟨t,ht,rfl⟩ := Option.map_eq_some_iff.mp h
    exact Or.inl ⟨t,rfl,ht⟩

theorem execute_of_step {s t : State X R} {a : Action X R} (h : step s a = some t) : execute (.defined s) a = some (.defined t) := by
  have hstays : ¬ s.leavesRange a = true := by
    intro hleaves
    obtain ⟨q,rfl,hpc,hrun,hplan⟩ := State.leavesRange_iff.mp hleaves
    simp [step,request,hpc,hrun,hplan] at h
  rw [execute,if_neg hstays,h]
  rfl

theorem run_execute_of_run {s t : State X R} {as : List (Action X R)} (h : Transition.run step s as = some t) :
    Transition.run execute (.defined s) as = some (.defined t) := by
  induction as generalizing s with
  | nil =>
    cases h
    rfl
  | cons a as ih =>
    obtain ⟨u,hu,hrest⟩ := Option.bind_eq_some_iff.mp h
    rw [Transition.run,execute_of_step hu]
    exact ih hrest

end ThreadPool
end AudioOutput
