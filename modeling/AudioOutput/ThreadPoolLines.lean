import AudioOutput.ThreadPoolRequests

/-!
# The line of items in front of a worker

What a worker has fetched, what is in its queue and what the submitting thread is
about to put there form one line, which the worker goes through from the front. A
queue operation moves items along the line and changes nothing in it. The poison
comes last in its line, so a worker that exits leaves nothing behind.
-/

namespace AudioOutput
namespace ThreadPool

open ThreadsafeQueue (Queue)

universe u
variable {X R : Type u}

def WorkerPc.batch : WorkerPc X R → List (Item X)
  | .looping batch | .running _ _ _ batch | .releasing _ batch | .waiting _ batch => batch
  | _ => []

def itemsFor (i : ℕ) (puts : List (Put X)) : List (Item X) :=
  puts.flatMap fun p => if p.index = i then p.items else []

def SubmitterPc.pending (i : ℕ) : SubmitterPc X → List (Item X)
  | .submitting puts => itemsFor i puts
  | .poisoning k _ => if k ≤ i then [.poison] else []
  | _ => []

def line (s : State X R) (i : ℕ) : List (Item X) :=
  (s.worker i).batch ++ (s.queue i).items ++ s.submitter.pending i

def SubmitterPc.stopping : SubmitterPc X → Bool
  | .poisoning _ _ | .joining _ _ | .clearing _ => true
  | _ => false

/-- There is no poison in a line before `stop`; from then on it comes last, until
the worker has reached it and has exited. -/
def LineOk (stopping : Bool) (pc : WorkerPc X R) (items : List (Item X)) : Prop :=
  match stopping with
  | false => pc ≠ .returned ∧ .poison ∉ items
  | true => pc = .returned ∧ items = [] ∨
      pc ≠ .returned ∧ ∃ before, items = before ++ [.poison] ∧ .poison ∉ before

def SubmitterPc.threads (queueCount : ℕ) : SubmitterPc X → ℕ
  | .spawning i => i
  | _ => queueCount

/-- The thread count that `setThreadCount` has asked for. -/
def SubmitterPc.restart? : SubmitterPc X → Option ℕ
  | .poisoning _ restart | .joining _ restart | .clearing restart => restart
  | _ => none

structure PoolInv (s : State X R) : Prop where
  pointer : s.jobQueuePointer < s.threadCount
  rewound : s.queueCount = 0 → s.jobQueuePointer = 0
  queues : s.queueCount = 0 ∨ s.queueCount = s.threadCount
  running : s.running = true → s.queueCount = s.threadCount
  idle : s.submitter = .idle → s.running = false → s.queueCount = 0
  creating : s.submitter = .creating → s.queueCount = 0 ∧ s.running = false
  submitting : ∀ puts, s.submitter = .submitting puts → s.running = true ∧ ∀ p ∈ puts, p.index < s.queueCount
  spawning : ∀ k, s.submitter = .spawning k → s.running = true ∧ k ≤ s.queueCount ∧ ∀ i, line s i = []
  threads : s.threads = s.submitter.threads s.queueCount
  unstarted : ∀ i, s.worker i = .unstarted ↔ s.threads ≤ i
  restart : ∀ n, s.submitter.restart? = some n → 0 < n
  joining : ∀ k restart, s.submitter = .joining k restart → s.running = false ∧ ∀ i < k, s.worker i = .returned
  clearing : ∀ restart, s.submitter = .clearing restart →
    s.running = false ∧ ∀ i < s.queueCount, s.worker i = .returned
  lines : ∀ i < s.queueCount, LineOk s.submitter.stopping (s.worker i) (line s i)
  abandoned : s.abandoned = []

theorem initial_poolInv {n : ℕ} (hn : 0 < n) : PoolInv (initial X R n) := by
  constructor <;> simp [initial,hn,SubmitterPc.threads,SubmitterPc.restart?]

theorem LineOk.keep {stopping : Bool} {pc pc' : WorkerPc X R} {items : List (Item X)} (h : LineOk stopping pc items)
    (hpc : pc ≠ .returned) (hpc' : pc' ≠ .returned) : LineOk stopping pc' items := by
  cases stopping with
  | false => exact ⟨hpc',h.2⟩
  | true => exact Or.inr ⟨hpc',(h.resolve_left fun hdone => hpc hdone.1).2⟩

theorem LineOk.tail {stopping : Bool} {pc pc' : WorkerPc X R} {item : Item X} {items : List (Item X)}
    (h : LineOk stopping pc (item :: items)) (hitem : item ≠ .poison) (hpc' : pc' ≠ .returned) :
    LineOk stopping pc' items := by
  cases stopping with
  | false => exact ⟨hpc',fun hmem => h.2 (List.mem_cons_of_mem _ hmem)⟩
  | true =>
    obtain ⟨-,before,heq,hfree⟩ := h.resolve_left fun hdone => by simp at hdone
    cases before with
    | nil => exact absurd (List.cons.inj heq).1 hitem
    | cons first before =>
      exact Or.inr ⟨hpc',before,(List.cons.inj heq).2,fun hmem => hfree (List.mem_cons_of_mem _ hmem)⟩

/-- The poison is only reached at the very end of a line, during `stop`. -/
theorem LineOk.exit {stopping : Bool} {pc : WorkerPc X R} {items : List (Item X)} (h : LineOk stopping pc (.poison :: items)) :
    stopping = true ∧ items = [] := by
  cases stopping with
  | false => exact absurd List.mem_cons_self h.2
  | true =>
    obtain ⟨-,before,heq,hfree⟩ := h.resolve_left fun hdone => by simp at hdone
    cases before with
    | nil => exact ⟨rfl,(List.cons.inj heq).2⟩
    | cons first before =>
      rw [← (List.cons.inj heq).1] at hfree
      exact absurd List.mem_cons_self hfree

@[simp] theorem WorkerPc.notify_batch (pc : WorkerPc X R) : pc.notify.batch = pc.batch := by
  cases pc <;> rfl

@[simp] theorem WorkerPc.notify_returned (pc : WorkerPc X R) : pc.notify = .returned ↔ pc = .returned := by
  cases pc <;> simp [WorkerPc.notify]

@[simp] theorem WorkerPc.notify_unstarted (pc : WorkerPc X R) : pc.notify = .unstarted ↔ pc = .unstarted := by
  cases pc <;> simp [WorkerPc.notify]

theorem itemsFor_cons (i : ℕ) (p : Put X) (puts : List (Put X)) :
    itemsFor i (p :: puts) = (if p.index = i then p.items else []) ++ itemsFor i puts := by
  simp [itemsFor]

theorem itemsFor_eq (i : ℕ) (puts : List (Put X)) : itemsFor i puts = (puts.filter (·.index = i)).flatMap Put.items := by
  induction puts with
  | nil => rfl
  | cons p puts ih => by_cases h : p.index = i <;> simp [itemsFor_cons,ih,h]

theorem mem_itemsFor {i : ℕ} {puts : List (Put X)} {item : Item X} (h : item ∈ itemsFor i puts) :
    item ∈ puts.flatMap Put.items := by
  rw [itemsFor_eq] at h
  obtain ⟨p,hp,hitem⟩ := List.mem_flatMap.mp h
  exact List.mem_flatMap.mpr ⟨p,List.mem_of_mem_filter hp,hitem⟩

theorem Put.apply_queue (s : State X R) (p : Put X) (i : ℕ) :
    ((p.apply s).queue i).items = (s.queue i).items ++ if p.index = i then p.items else [] := by
  cases p with
  | enqueue k item =>
    by_cases h : i = k
    · simp [Put.apply,Put.index,Put.items,Queue.enqueue,h]
    · simp [Put.apply,Put.index,h,Ne.symm h]
  | enqueueRange k items =>
    by_cases h : i = k
    · simp [Put.apply,Put.index,Put.items,Queue.enqueueRange,h]
    · simp [Put.apply,Put.index,h,Ne.symm h]

theorem Put.apply_worker (s : State X R) (p : Put X) (i : ℕ) :
    (p.apply s).worker i = s.worker i ∨ (p.apply s).worker i = (s.worker i).notify := by
  cases p with
  | enqueue k item =>
    by_cases h : i = k
    · exact Or.inr (by simp [Put.apply,h])
    · exact Or.inl (by simp [Put.apply,h])
  | enqueueRange k items => exact Or.inl rfl

theorem Put.apply_batch (s : State X R) (p : Put X) (i : ℕ) : ((p.apply s).worker i).batch = (s.worker i).batch := by
  rcases p.apply_worker s i with h | h <;> simp [h]

/-- Putting an item into its queue leaves it where it is in the line. -/
theorem line_put {s : State X R} {p : Put X} {rest : List (Put X)} (hpc : s.submitter = .submitting (p :: rest)) (i : ℕ) :
    line { p.apply s with submitter := .submitting rest } i = line s i := by
  simp only [line,hpc,SubmitterPc.pending,itemsFor_cons,Put.apply_queue,Put.apply_batch,List.append_assoc]

theorem line_poison {s : State X R} {k : ℕ} {restart : Option ℕ} (hpc : s.submitter = .poisoning k restart) (i : ℕ) :
    line { (Put.enqueue k Item.poison).apply s with submitter := .poisoning (k+1) restart } i = line s i := by
  simp only [line,hpc,SubmitterPc.pending,Put.apply_queue,Put.apply_batch,List.append_assoc]
  congr 2
  by_cases h : k = i
  · simp [h,Put.index,Put.items]
  · have hiff : k+1 ≤ i ↔ k ≤ i := by omega
    simp [h,Put.index,hiff]

theorem PoolInv.threads_le {s : State X R} (h : PoolInv s) : s.threads ≤ s.queueCount := by
  rw [h.threads]
  cases hpc : s.submitter with
  | spawning k => exact (h.spawning k hpc).2.1
  | _ => exact le_rfl

theorem PoolInv.started {s : State X R} (h : PoolInv s) {i : ℕ} (hpc : s.worker i ≠ .unstarted) : i < s.queueCount := by
  have hlt : ¬ s.threads ≤ i := fun hle => hpc ((h.unstarted i).mpr hle)
  have hle := h.threads_le
  omega

structure SameControl (s t : State X R) : Prop where
  threadCount : t.threadCount = s.threadCount
  jobQueuePointer : t.jobQueuePointer = s.jobQueuePointer
  running : t.running = s.running
  queueCount : t.queueCount = s.queueCount
  threads : t.threads = s.threads
  submitter : t.submitter = s.submitter

structure Local (i : ℕ) (s t : State X R) : Prop extends SameControl s t where
  worker : ∀ k ≠ i, t.worker k = s.worker k
  queue : ∀ k ≠ i, t.queue k = s.queue k
  started : s.worker i ≠ .unstarted
  live : s.worker i ≠ .returned
  starts : t.worker i ≠ .unstarted

def Action.worker? : Action X R → Option ℕ
  | .worker i | .call i _ | .spurious i => some i
  | _ => none

theorem Local.of_update {s t : State X R} {i : ℕ} {pc : WorkerPc X R} (hsame : SameControl s t)
    (hworker : t.worker = Function.update s.worker i pc) (hqueue : ∀ k ≠ i, t.queue k = s.queue k)
    (hpc : s.worker i ≠ .unstarted ∧ s.worker i ≠ .returned) (hnext : pc ≠ .unstarted) : Local i s t where
  toSameControl := hsame
  worker k hk := by rw [hworker,Function.update_of_ne hk]
  queue := hqueue
  started := hpc.1
  live := hpc.2
  starts := by rw [hworker,Function.update_self]; exact hnext

theorem Move.local {s t : State X R} {a : Action X R} {i : ℕ} (h : Move s a t) (ha : a.worker? = some i) : Local i s t := by
  cases h <;> cases ha
  case sleep hpc hempty =>
    refine .of_update ⟨rfl,rfl,rfl,rfl,rfl,rfl⟩ rfl (fun _ _ => rfl) ?_ nofun
    rcases hpc with hpc | hpc <;> simp [hpc]
  case fetch hpc hne =>
    refine .of_update ⟨rfl,rfl,rfl,rfl,rfl,rfl⟩ rfl (fun _ hk => Function.update_of_ne hk _ _) ?_ nofun
    rcases hpc with hpc | hpc <;> simp [hpc]
  case refetch hpc => exact .of_update ⟨rfl,rfl,rfl,rfl,rfl,rfl⟩ rfl (fun _ _ => rfl) (by simp [hpc]) nofun
  case beginJob hpc => exact .of_update ⟨rfl,rfl,rfl,rfl,rfl,rfl⟩ rfl (fun _ _ => rfl) (by simp [hpc]) nofun
  case beginBarrier hpc =>
    refine .of_update ⟨rfl,rfl,rfl,rfl,rfl,rfl⟩ rfl (fun _ _ => rfl) (by simp [hpc]) ?_
    split <;> nofun
  case exit hpc => exact .of_update ⟨rfl,rfl,rfl,rfl,rfl,rfl⟩ rfl (fun _ _ => rfl) (by simp [hpc]) nofun
  case finish hpc => exact .of_update ⟨rfl,rfl,rfl,rfl,rfl,rfl⟩ rfl (fun _ _ => rfl) (by simp [hpc]) nofun
  case release hpc => exact .of_update ⟨rfl,rfl,rfl,rfl,rfl,rfl⟩ rfl (fun _ _ => rfl) (by simp [hpc]) nofun
  case pass hpc => exact .of_update ⟨rfl,rfl,rfl,rfl,rfl,rfl⟩ rfl (fun _ _ => rfl) (by simp [hpc]) nofun
  case call hpc => exact .of_update ⟨rfl,rfl,rfl,rfl,rfl,rfl⟩ rfl (fun _ _ => rfl) (by simp [hpc]) nofun
  case spurious hpc => exact .of_update ⟨rfl,rfl,rfl,rfl,rfl,rfl⟩ rfl (fun _ _ => rfl) (by simp [hpc]) nofun

theorem Local.line_ne {s t : State X R} {i k : ℕ} (h : Local i s t) (hk : k ≠ i) : line t k = line s k := by
  rw [line,line,h.worker k hk,h.queue k hk,h.submitter]

theorem Local.line_eq {s t : State X R} {i : ℕ} (h : Local i s t)
    (hown : (t.worker i).batch ++ (t.queue i).items = (s.worker i).batch ++ (s.queue i).items) : line t = line s := by
  funext k
  by_cases hk : k = i
  · rw [hk,line,line,hown,h.submitter]
  · exact h.line_ne hk

structure Keeps (i : ℕ) (s t : State X R) : Prop where
  ahead : ∀ item rest, s.worker i ≠ .looping (item :: rest)
  line : line t = line s
  live : t.worker i ≠ .returned
  abandoned : t.abandoned = s.abandoned
  begun : t.begun = s.begun
  counter : t.counter = s.counter

/-- A worker's step keeps all lines, or takes the first item off its own. -/
theorem Move.line_worker {s t : State X R} {a : Action X R} {i : ℕ} (h : Move s a t) (ha : a.worker? = some i) :
    Keeps i s t ∨ ∃ item rest, s.worker i = .looping (item :: rest) ∧ t = beginItem s i rest item := by
  have hlocal := h.local ha
  cases h <;> cases ha
  case sleep hpc hempty =>
    refine Or.inl ⟨?_,hlocal.line_eq ?_,by simp [State.setWorker],rfl,rfl,rfl⟩
    · rcases hpc with hpc | hpc <;> simp [hpc]
    · rcases hpc with hpc | hpc <;> simp [State.setWorker,WorkerPc.batch,hpc]
  case fetch hpc hne =>
    refine Or.inl ⟨?_,hlocal.line_eq ?_,by simp [State.setWorker],rfl,rfl,rfl⟩
    · rcases hpc with hpc | hpc <;> simp [hpc]
    · rcases hpc with hpc | hpc <;> simp [State.setWorker,WorkerPc.batch,hpc,Queue.takeUpTo_append]
  case refetch hpc =>
    exact Or.inl ⟨by simp [hpc],hlocal.line_eq (by simp [State.setWorker,WorkerPc.batch,hpc]),by simp [State.setWorker],rfl,rfl,rfl⟩
  case beginJob hpc => exact Or.inr ⟨_,_,hpc,rfl⟩
  case beginBarrier hpc => exact Or.inr ⟨_,_,hpc,rfl⟩
  case exit hpc => exact Or.inr ⟨_,_,hpc,rfl⟩
  case finish hpc =>
    exact Or.inl ⟨by simp [hpc],hlocal.line_eq (by simp [finishJob,State.setWorker,WorkerPc.batch,hpc]),
      by simp [finishJob,State.setWorker],rfl,rfl,rfl⟩
  case release hpc =>
    exact Or.inl ⟨by simp [hpc],hlocal.line_eq (by simp [State.setWorker,WorkerPc.batch,hpc]),by simp [State.setWorker],rfl,rfl,rfl⟩
  case pass hpc =>
    exact Or.inl ⟨by simp [hpc],hlocal.line_eq (by simp [State.setWorker,WorkerPc.batch,hpc]),by simp [State.setWorker],rfl,rfl,rfl⟩
  case call hpc =>
    exact Or.inl ⟨by simp [hpc],hlocal.line_eq (by simp [State.setWorker,WorkerPc.batch,hpc]),by simp [State.setWorker],rfl,rfl,rfl⟩
  case spurious hpc =>
    exact Or.inl ⟨by simp [hpc],hlocal.line_eq (by simp [State.setWorker,WorkerPc.batch,hpc]),by simp [State.setWorker],rfl,rfl,rfl⟩

/-- A step of one worker that goes through its line in order. -/
theorem PoolInv.of_local {s t : State X R} {i : ℕ} (h : PoolInv s) (hlocal : Local i s t)
    (hok : LineOk s.submitter.stopping (t.worker i) (line t i)) (hempty : line s i = [] → line t i = [])
    (habandoned : t.abandoned = []) : PoolInv t := by
  obtain ⟨⟨hcount,hptr,hrun,hqueues,hthreads,hsub⟩,hworker,-,hstarted,hlive,hstarts⟩ := id hlocal
  have hreturned (k : ℕ) (hk : s.worker k = .returned) : t.worker k = .returned := by
    have hne : k ≠ i := fun heq => hlive (heq ▸ hk)
    rw [hworker k hne,hk]
  constructor
  case pointer => rw [hptr,hcount]; exact h.pointer
  case rewound => rw [hqueues,hptr]; exact h.rewound
  case queues => rw [hqueues,hcount]; exact h.queues
  case running => rw [hrun,hqueues,hcount]; exact h.running
  case idle => rw [hsub,hrun,hqueues]; exact h.idle
  case creating => rw [hsub,hrun,hqueues]; exact h.creating
  case submitting => rw [hsub,hrun,hqueues]; exact h.submitting
  case spawning =>
    intro k hk
    rw [hsub] at hk
    obtain ⟨hon,hle,hlines⟩ := h.spawning k hk
    refine ⟨hrun.trans hon,hqueues ▸ hle,fun j => ?_⟩
    by_cases hj : j = i
    · rw [hj]
      exact hempty (hlines i)
    · rw [hlocal.line_ne hj,hlines j]
  case threads => rw [hthreads,hsub,hqueues]; exact h.threads
  case unstarted =>
    intro k
    rw [hthreads]
    by_cases hk : k = i
    · rw [hk]
      exact iff_of_false hstarts (fun hle => hstarted ((h.unstarted i).mpr hle))
    · rw [hworker k hk]
      exact h.unstarted k
  case restart => rw [hsub]; exact h.restart
  case joining =>
    intro k restart hk
    obtain ⟨hoff,hall⟩ := h.joining k restart (hsub ▸ hk)
    exact ⟨hrun.trans hoff,fun j hj => hreturned j (hall j hj)⟩
  case clearing =>
    intro restart hk
    obtain ⟨hoff,hall⟩ := h.clearing restart (hsub ▸ hk)
    exact ⟨hrun.trans hoff,fun j hj => hreturned j (hall j (hqueues ▸ hj))⟩
  case lines =>
    intro k hk
    rw [hsub]
    by_cases hki : k = i
    · rw [hki]
      exact hok
    · rw [hworker k hki,hlocal.line_ne hki]
      exact h.lines k (hqueues ▸ hk)
  case abandoned => exact habandoned

theorem line_looping {s : State X R} {i : ℕ} {batch : List (Item X)} (h : s.worker i = .looping batch) :
    line s i = batch ++ ((s.queue i).items ++ s.submitter.pending i) := by
  rw [line,h,List.append_assoc]
  rfl

theorem line_beginItem {s : State X R} {i : ℕ} {item : Item X} {rest : List (Item X)}
    (h : s.worker i = .looping (item :: rest)) (hitem : item ≠ .poison) :
    line s i = item :: line (beginItem s i rest item) i := by
  rw [line_looping h]
  cases item with
  | job j => simp [line,beginItem,State.setWorker,WorkerPc.batch]
  | barrier b =>
    by_cases hlast : s.counter b+1 = s.goal b <;> simp [line,beginItem,State.setWorker,WorkerPc.batch,hlast]
  | poison => exact absurd rfl hitem

theorem beginItem_worker (s : State X R) (i : ℕ) (rest : List (Item X)) {item : Item X} (hitem : item ≠ .poison) :
    (beginItem s i rest item).worker i ≠ .returned := by
  cases item with
  | job j => simp [beginItem,State.setWorker]
  | barrier b => by_cases hlast : s.counter b+1 = s.goal b <;> simp [beginItem,State.setWorker,hlast]
  | poison => exact absurd rfl hitem

theorem PoolInv.exit {s : State X R} (h : PoolInv s) {i : ℕ} {rest : List (Item X)}
    (hpc : s.worker i = .looping (.poison :: rest)) :
    s.submitter.stopping = true ∧ rest = [] ∧ (s.queue i).items = [] ∧ s.submitter.pending i = [] := by
  have hok := h.lines i (h.started (by simp [hpc]))
  rw [line_looping hpc,List.cons_append] at hok
  simpa using hok.exit

theorem PoolInv.worker {s t : State X R} {a : Action X R} {i : ℕ} (h : PoolInv s) (hmove : Move s a t)
    (ha : a.worker? = some i) : PoolInv t := by
  have hlocal := hmove.local ha
  have hok := h.lines i (h.started hlocal.started)
  rcases hmove.line_worker ha with hkeep | ⟨item,rest,hpc,rfl⟩
  · exact h.of_local hlocal (by rw [hkeep.line]; exact hok.keep hlocal.live hkeep.live) (by rw [hkeep.line]; exact id)
      (hkeep.abandoned.trans h.abandoned)
  · by_cases hitem : item = .poison
    · subst hitem
      obtain ⟨hstopping,rfl,hqueue,hpending⟩ := h.exit hpc
      have hline : line (beginItem s i [] .poison) i = [] := by
        simp [line,beginItem,State.setWorker,WorkerPc.batch,hqueue,hpending]
      refine h.of_local hlocal ?_ (fun _ => hline) (by simp [beginItem,State.setWorker,hqueue,h.abandoned])
      rw [hstopping,hline]
      exact Or.inl ⟨by simp [beginItem,State.setWorker],rfl⟩
    · have hline := line_beginItem hpc hitem
      rw [hline] at hok
      refine h.of_local hlocal (hok.tail hitem (beginItem_worker s i rest hitem)) (fun hnil => ?_) ?_
      · rw [hline] at hnil
        cases hnil
      · cases item with
        | job j => exact h.abandoned
        | barrier b => exact h.abandoned
        | poison => exact absurd rfl hitem

theorem line_accept {s : State X R} (h : s.submitter = .idle) (q : Request X) (r : (List (Put X) × ℕ) × List (Call X) × ℕ)
    (i : ℕ) : line (s.accept q r) i = line s i ++ itemsFor i r.1.1 := by
  simp [line,State.accept,SubmitterPc.pending,h]

theorem line_stop {s : State X R} (h : s.submitter = .idle) (restart : Option ℕ) (i : ℕ) :
    line { s with submitter := .poisoning 0 restart } i = line s i ++ [.poison] := by
  simp [line,SubmitterPc.pending,h]

theorem PoolInv.accept {s : State X R} (h : PoolInv s) {q : Request X} {r : (List (Put X) × ℕ) × List (Call X) × ℕ}
    (hpc : s.submitter = .idle) (hrun : s.running = true) (hplan : plan s q = some r) : PoolInv (s.accept q r) := by
  have hspec := plan_spec h.pointer (h.running hrun) hplan
  have hpoison (i : ℕ) : .poison ∉ itemsFor i r.1.1 := by
    intro hmem
    have hitem := mem_itemsFor hmem
    rw [hspec.items] at hitem
    rcases Request.items_kind hitem with ⟨j,hj,-⟩ | ⟨-,hb⟩
    · cases hj
    · cases hb
  have hzero := h.pointer
  exact { h with
    pointer := hspec.pointer
    rewound := fun hz => by
      have hcount := h.running hrun
      simp only [State.accept] at hz
      omega
    idle := nofun
    creating := nofun
    submitting := fun puts hputs => by
      cases hputs
      refine ⟨hrun,fun p hp => ?_⟩
      have hlt := hspec.index p hp
      rwa [← h.running hrun] at hlt
    spawning := nofun
    threads := h.threads.trans (by rw [hpc]; rfl)
    restart := nofun
    joining := nofun
    clearing := nofun
    lines := fun i hi => by
      have hok := h.lines i hi
      rw [hpc] at hok
      refine ⟨hok.1,?_⟩
      rw [line_accept hpc,List.mem_append,not_or]
      exact ⟨hok.2,hpoison i⟩ }

def AtSubmitter (s : State X R) : SubmitterPc X → Prop
  | .idle => s.running = false → s.queueCount = 0
  | .creating => s.queueCount = 0 ∧ s.running = false
  | .submitting puts => s.running = true ∧ ∀ p ∈ puts, p.index < s.queueCount
  | .spawning k => s.running = true ∧ k ≤ s.queueCount ∧ ∀ i, line s i = []
  | .poisoning _ restart => ∀ n, restart = some n → 0 < n
  | .joining k restart => (∀ n, restart = some n → 0 < n) ∧ s.running = false ∧ ∀ i < k, s.worker i = .returned
  | .clearing restart =>
    (∀ n, restart = some n → 0 < n) ∧ s.running = false ∧ ∀ i < s.queueCount, s.worker i = .returned

theorem PoolInv.move {s : State X R} (h : PoolInv s) {pc : SubmitterPc X} (hat : AtSubmitter { s with submitter := pc } pc)
    (hthreads : s.threads = pc.threads s.queueCount)
    (hlines : ∀ i < s.queueCount, LineOk pc.stopping (s.worker i) (line { s with submitter := pc } i)) :
    PoolInv { s with submitter := pc } :=
  { h with
    idle := by rintro rfl; exact hat
    creating := by rintro rfl; exact hat
    submitting := by rintro puts rfl; exact hat
    spawning := by rintro k rfl; exact hat
    threads := hthreads
    restart := by
      cases pc with
      | idle | creating | submitting | spawning => exact nofun
      | poisoning => exact hat
      | joining | clearing => exact hat.1
    joining := by rintro k restart rfl; exact hat.2
    clearing := by rintro restart rfl; exact hat.2
    lines := hlines }

theorem PoolInv.stop {s : State X R} (h : PoolInv s) (hpc : s.submitter = .idle) {restart : Option ℕ}
    (hrestart : ∀ n, restart = some n → 0 < n) : PoolInv { s with submitter := .poisoning 0 restart } := by
  refine h.move hrestart (by rw [h.threads,hpc]; rfl) fun i hi => ?_
  have hok := h.lines i hi
  rw [hpc] at hok
  exact Or.inr ⟨hok.1,line s i,line_stop hpc restart i,hok.2⟩

theorem Put.apply_control (s : State X R) (p : Put X) : SameControl s (p.apply s) := by
  cases p <;> exact ⟨rfl,rfl,rfl,rfl,rfl,rfl⟩

theorem Put.apply_unstarted (s : State X R) (p : Put X) (i : ℕ) :
    (p.apply s).worker i = .unstarted ↔ s.worker i = .unstarted := by
  rcases p.apply_worker s i with h | h <;> simp [h]

theorem Put.apply_returned (s : State X R) (p : Put X) (i : ℕ) :
    (p.apply s).worker i = .returned ↔ s.worker i = .returned := by
  rcases p.apply_worker s i with h | h <;> simp [h]

theorem LineOk.congr {stopping : Bool} {pc pc' : WorkerPc X R} {items : List (Item X)} (h : LineOk stopping pc items)
    (hpc : pc' = .returned ↔ pc = .returned) : LineOk stopping pc' items := by
  cases stopping <;> simpa only [LineOk,ne_eq,hpc] using h

/-- A queue operation by which items only move along their lines. -/
theorem PoolInv.put {s : State X R} (h : PoolInv s) (p : Put X) {pc : SubmitterPc X}
    (hline : line { p.apply s with submitter := pc } = line s)
    (hpc : (∃ rest, s.submitter = .submitting (p :: rest) ∧ pc = .submitting rest) ∨
      ∃ i restart, s.submitter = .poisoning i restart ∧ pc = .poisoning (i+1) restart) :
    PoolInv { p.apply s with submitter := pc } := by
  obtain ⟨hcount,hptr,hrun,hqueues,hthreads,-⟩ := p.apply_control s
  constructor
  case pointer => simp only [hptr,hcount]; exact h.pointer
  case rewound => simp only [hqueues,hptr]; exact h.rewound
  case queues => simp only [hqueues,hcount]; exact h.queues
  case running => simp only [hrun,hqueues,hcount]; exact h.running
  case idle => rcases hpc with ⟨rest,-,rfl⟩ | ⟨i,restart,-,rfl⟩ <;> exact nofun
  case creating => rcases hpc with ⟨rest,-,rfl⟩ | ⟨i,restart,-,rfl⟩ <;> exact nofun
  case submitting =>
    intro puts hputs
    rcases hpc with ⟨rest,hpc,rfl⟩ | ⟨i,restart,-,rfl⟩
    · cases hputs
      obtain ⟨hon,hindex⟩ := h.submitting _ hpc
      simp only [hrun,hqueues]
      exact ⟨hon,fun p' hp' => hindex p' (List.mem_cons_of_mem _ hp')⟩
    · cases hputs
  case spawning => rcases hpc with ⟨rest,-,rfl⟩ | ⟨i,restart,-,rfl⟩ <;> exact nofun
  case threads =>
    simp only [hthreads,hqueues,h.threads]
    rcases hpc with ⟨rest,hpc,rfl⟩ | ⟨i,restart,hpc,rfl⟩ <;> rw [hpc] <;> rfl
  case unstarted =>
    intro i
    simp only [Put.apply_unstarted,hthreads]
    exact h.unstarted i
  case restart =>
    rcases hpc with ⟨rest,-,rfl⟩ | ⟨i,restart,hpc,rfl⟩
    · exact nofun
    · intro n hn
      exact h.restart n (by rw [hpc]; exact hn)
  case joining => rcases hpc with ⟨rest,-,rfl⟩ | ⟨i,restart,-,rfl⟩ <;> exact nofun
  case clearing => rcases hpc with ⟨rest,-,rfl⟩ | ⟨i,restart,-,rfl⟩ <;> exact nofun
  case lines =>
    intro i hi
    simp only [hqueues] at hi
    have hok := (h.lines i hi).congr (p.apply_returned s i)
    rw [hline]
    rcases hpc with ⟨rest,hpc,rfl⟩ | ⟨k,restart,hpc,rfl⟩ <;> rw [hpc] at hok <;> exact hok
  case abandoned =>
    have habandoned : (p.apply s).abandoned = s.abandoned := by cases p <;> rfl
    exact habandoned.trans h.abandoned

theorem PoolInv.line_returned {s : State X R} (h : PoolInv s) {i : ℕ} (hi : i < s.queueCount)
    (hreturned : s.worker i = .returned) : s.submitter.stopping = true ∧ line s i = [] := by
  have hok := h.lines i hi
  rw [hreturned] at hok
  cases hstop : s.submitter.stopping with
  | false =>
    rw [hstop] at hok
    exact absurd rfl hok.1
  | true =>
    rw [hstop] at hok
    exact ⟨rfl,(hok.resolve_right fun hnot => hnot.1 rfl).2⟩

theorem PoolInv.clear {s : State X R} (h : PoolInv s) {restart : Option ℕ} (hpc : s.submitter = .clearing restart) :
    PoolInv { s with
      threads := 0
      worker := fun _ => .unstarted
      queueCount := 0
      queue := fun _ => {}
      jobQueuePointer := 0
      threadCount := restart.getD s.threadCount
      submitter := afterStop restart } := by
  have hrestart := h.restart
  rw [hpc] at hrestart
  obtain ⟨hoff,-⟩ := h.clearing restart hpc
  have hn : 0 < restart.getD s.threadCount := by
    have hptr := h.pointer
    cases restart with
    | none => simp only [Option.getD_none]; omega
    | some n => exact hrestart n rfl
  have hnext : afterStop restart = (.idle : SubmitterPc X) ∨ afterStop restart = (.creating : SubmitterPc X) := by
    cases restart with
    | none => exact Or.inl rfl
    | some n => exact Or.inr rfl
  constructor <;> rcases hnext with hnext | hnext <;> simp [hnext,hoff,hn,SubmitterPc.threads,SubmitterPc.restart?,h.abandoned]

theorem PoolInv.create {s : State X R} (h : PoolInv s) (hpc : s.submitter = .creating) :
    PoolInv { s with running := true, queueCount := s.threadCount, queue := fun _ => {}, submitter := .spawning 0 } := by
  have hthreads := h.threads
  obtain ⟨hzero,hoff⟩ := h.creating hpc
  have hptr := h.rewound hzero
  rw [hpc] at hthreads
  have hunstarted (i : ℕ) : s.worker i = .unstarted := (h.unstarted i).mpr (by rw [hthreads]; simp [SubmitterPc.threads,hzero])
  have hline (i : ℕ) : line { s with running := true, queueCount := s.threadCount, queue := fun _ => {}, submitter := .spawning 0 } i = [] := by
    simp [line,hunstarted,WorkerPc.batch,SubmitterPc.pending]
  exact { h with
    rewound := fun _ => hptr
    queues := Or.inr rfl
    running := fun _ => rfl
    idle := nofun
    creating := nofun
    submitting := nofun
    spawning := fun k hk => by cases hk; exact ⟨rfl,Nat.zero_le _,hline⟩
    threads := hthreads.trans hzero
    restart := nofun
    joining := nofun
    clearing := nofun
    lines := fun i _ => by
      rw [hline]
      exact ⟨by simp [hunstarted],List.not_mem_nil⟩ }

/-- A thread is started on an empty line. -/
theorem PoolInv.spawn {s : State X R} (h : PoolInv s) {i : ℕ} (hpc : s.submitter = .spawning i) (hlt : i < s.threadCount) :
    PoolInv { s with worker := Function.update s.worker i .fetching, threads := i+1, submitter := .spawning (i+1) } := by
  have hthreads := h.threads
  obtain ⟨hon,hle,hlines⟩ := h.spawning i hpc
  rw [hpc] at hthreads
  have hcount := h.running hon
  have hbatch (k : ℕ) : (Function.update s.worker i .fetching k).batch = (s.worker k).batch := by
    by_cases hk : k = i
    · have hunstarted : s.worker i = .unstarted := (h.unstarted i).mpr hthreads.le
      rw [hk,Function.update_self,hunstarted]
      rfl
    · rw [Function.update_of_ne hk]
  have hline (k : ℕ) : line { s with
      worker := Function.update s.worker i .fetching, threads := i+1, submitter := .spawning (i+1) } k = [] := by
    have hempty := hlines k
    simp only [line,hpc] at hempty
    simp only [line,hbatch]
    exact hempty
  exact { h with
    idle := nofun
    creating := nofun
    submitting := nofun
    spawning := fun k hk => by
      cases hk
      exact ⟨hon,by change i+1 ≤ s.queueCount; omega,hline⟩
    threads := rfl
    unstarted := fun k => by
      have hiff := h.unstarted k
      simp only [SubmitterPc.threads] at hthreads
      by_cases hk : k = i
      · simp [hk]
      · simp only [Function.update_of_ne hk]
        exact hiff.trans (by omega)
    restart := nofun
    joining := nofun
    clearing := nofun
    lines := fun k hk => by
      have hok := h.lines k hk
      rw [hpc] at hok
      rw [hline]
      refine ⟨?_,List.not_mem_nil⟩
      by_cases hki : k = i
      · simp [hki]
      · simp only [Function.update_of_ne hki]
        exact hok.1 }

theorem PoolInv.submitter {s t : State X R} (h : PoolInv s) (hmove : Move s .submitter t) : PoolInv t := by
  have hthreads := h.threads
  have hrestart := h.restart
  cases hmove
  case submitted hpc =>
    rw [hpc] at hthreads
    have hon : s.running = true := (h.submitting _ hpc).1
    have hat : AtSubmitter { s with submitter := .idle } .idle := fun hoff => by simp [hon] at hoff
    refine h.move hat hthreads fun i hi => ?_
    simpa [hpc,line,SubmitterPc.stopping,SubmitterPc.pending,itemsFor] using h.lines i hi
  case put p rest hpc => exact h.put p (funext (line_put hpc)) (Or.inl ⟨rest,hpc,rfl⟩)
  case poison i restart hpc hlt => exact h.put _ (funext (line_poison hpc)) (Or.inr ⟨i,restart,hpc,rfl⟩)
  case poisoned i restart hpc hge =>
    rw [hpc] at hthreads hrestart
    exact { h with
      running := nofun
      idle := nofun
      creating := nofun
      submitting := nofun
      spawning := nofun
      threads := hthreads
      restart := hrestart
      joining := fun k r hk => by cases hk; exact ⟨rfl,nofun⟩
      clearing := nofun
      lines := fun k hk => by
        have hnone : ¬ i ≤ k := by change k < s.queueCount at hk; omega
        simpa [hpc,line,SubmitterPc.stopping,SubmitterPc.pending,hnone] using h.lines k hk }
  case join i restart hpc hlt hreturned =>
    rw [hpc] at hthreads hrestart
    obtain ⟨hoff,hall⟩ := h.joining i restart hpc
    have hnext : ∀ j < i+1, s.worker j = .returned := fun j hj => by
      rcases Nat.lt_succ_iff_lt_or_eq.mp hj with hlt | rfl
      · exact hall j hlt
      · exact hreturned
    refine h.move ⟨hrestart,hoff,hnext⟩ hthreads fun k hk => ?_
    simpa [hpc,line,SubmitterPc.stopping,SubmitterPc.pending] using h.lines k hk
  case joined i restart hpc hge =>
    rw [hpc] at hthreads hrestart
    obtain ⟨hoff,hall⟩ := h.joining i restart hpc
    have hdone : ∀ j < s.queueCount, s.worker j = .returned := fun j hj => hall j (by
      simp only [SubmitterPc.threads] at hthreads
      omega)
    refine h.move ⟨hrestart,hoff,hdone⟩ hthreads fun k hk => ?_
    simpa [hpc,line,SubmitterPc.stopping,SubmitterPc.pending] using h.lines k hk
  case clear restart hpc => exact h.clear hpc
  case create hpc => exact h.create hpc
  case spawn i hpc hlt => exact h.spawn hpc hlt
  case spawned i hpc hge =>
    obtain ⟨hon,hle,hlines⟩ := h.spawning i hpc
    have hcount := h.running hon
    rw [hpc] at hthreads
    have hall : s.threads = (SubmitterPc.idle : SubmitterPc X).threads s.queueCount := by
      simp only [SubmitterPc.threads] at hthreads ⊢
      omega
    have hat : AtSubmitter { s with submitter := .idle } .idle := fun hoff => by simp [hon] at hoff
    refine h.move hat hall fun k hk => ?_
    simpa [hpc,line,SubmitterPc.stopping,SubmitterPc.pending] using h.lines k hk

theorem PoolInv.step {s t : State X R} {a : Action X R} (h : PoolInv s) (hstep : step s a = some t) : PoolInv t := by
  have hmove := Move.of_step hstep
  cases hworker : a.worker? with
  | some i => exact h.worker hmove hworker
  | none =>
    cases a with
    | submitter => exact h.submitter hmove
    | request q =>
      cases hmove with
      | request hpc hrun hplan => exact h.accept hpc hrun hplan
    | start =>
      cases hmove with
      | start hpc hrun =>
        have hzero := h.idle hpc hrun
        exact h.move ⟨hzero,hrun⟩ (by rw [h.threads,hpc]; rfl) fun i hi => by simp [hzero] at hi
    | stop =>
      cases hmove with
      | stop hpc => exact h.stop hpc nofun
    | setThreadCount n =>
      cases hmove with
      | restart hpc hn hrun => exact h.stop hpc (by simp; omega)
      | setThreadCount hpc hn hrun =>
        have hzero := h.idle hpc hrun
        have hptr := h.rewound hzero
        exact { h with
          pointer := by simp only [hptr]; omega
          queues := Or.inl hzero
          running := fun hon => by simp [hrun] at hon }
    | worker i => cases hworker
    | call i r => cases hworker
    | spurious i => cases hworker

theorem Reachable.poolInv {n : ℕ} (hn : 0 < n) {s : State X R} (h : Reachable n s) : PoolInv s :=
  h.invariant (initial_poolInv hn) fun _ _ _ _ hinv hstep => hinv.step hstep

structure Unchanged (s t : State X R) : Prop where
  submitted : t.submitted = s.submitted
  executed : t.executed = s.executed
  jobs : t.jobs = s.jobs
  begun : t.begun = s.begun
  finished : t.finished = s.finished
  future : t.future = s.future
  promises : t.promises = s.promises
  barriers : t.barriers = s.barriers
  counter : t.counter = s.counter
  goal : t.goal = s.goal
  released : t.released = s.released

/-- Items move along their lines, a poison joins them, workers are woken or started. -/
structure Passive (s t : State X R) : Prop extends Unchanged s t where
  queueCount : t.queueCount = s.queueCount
  line : ∀ i < s.queueCount, line t i = line s i ∨ line t i = line s i ++ [.poison]
  worker : ∀ i, t.worker i = s.worker i ∨ t.worker i = (s.worker i).notify ∨ s.worker i = .unstarted ∧ t.worker i = .fetching

structure Emptied (s t : State X R) : Prop extends Unchanged s t where
  gone : ∀ i, s.worker i = .unstarted ∨ s.worker i = .returned
  drained : ∀ i < s.queueCount, ThreadPool.line s i = []
  worker : ∀ i, t.worker i = .unstarted
  line : ∀ i, ThreadPool.line t i = []

theorem Unchanged.put (s : State X R) (p : Put X) (pc : SubmitterPc X) : Unchanged s { p.apply s with submitter := pc } := by
  cases p <;> exact ⟨rfl,rfl,rfl,rfl,rfl,rfl,rfl,rfl,rfl,rfl,rfl⟩

theorem Passive.put {s : State X R} {p : Put X} {pc : SubmitterPc X}
    (hline : ∀ i, ThreadPool.line { p.apply s with submitter := pc } i = ThreadPool.line s i) :
    Passive s { p.apply s with submitter := pc } where
  toUnchanged := Unchanged.put s p pc
  queueCount := (p.apply_control s).queueCount
  line i _ := Or.inl (hline i)
  worker i := (p.apply_worker s i).imp_right Or.inl

theorem Passive.of_pc {s t : State X R} (hsame : Unchanged s t) (hcount : t.queueCount = s.queueCount)
    (hline : ∀ i < s.queueCount, ThreadPool.line t i = ThreadPool.line s i ∨ ThreadPool.line t i = ThreadPool.line s i ++ [.poison])
    (hworker : t.worker = s.worker) : Passive s t where
  toUnchanged := hsame
  queueCount := hcount
  line := hline
  worker i := Or.inl (by rw [hworker])

theorem PoolInv.unstarted_of_empty {s : State X R} (h : PoolInv s) (hzero : s.queueCount = 0) (i : ℕ) :
    s.worker i = .unstarted := by
  have hle := h.threads_le
  exact (h.unstarted i).mpr (by omega)

theorem Move.submitter_effect {s t : State X R} (h : PoolInv s) (hmove : Move s .submitter t) : Passive s t ∨ Emptied s t := by
  have hsame : Unchanged s s := ⟨rfl,rfl,rfl,rfl,rfl,rfl,rfl,rfl,rfl,rfl,rfl⟩
  cases hmove
  case submitted hpc =>
    refine Or.inl (.of_pc { hsame with } rfl (fun i hi => Or.inl ?_) rfl)
    simp [line,hpc,SubmitterPc.pending,itemsFor]
  case put p rest hpc => exact Or.inl (.put (line_put hpc))
  case poison k restart hpc hlt => exact Or.inl (.put (line_poison hpc))
  case poisoned k restart hpc hge =>
    refine Or.inl (.of_pc { hsame with } rfl (fun i hi => Or.inl ?_) rfl)
    have hki : ¬ k ≤ i := by omega
    simp [line,hpc,SubmitterPc.pending,hki]
  case join k restart hpc hlt hreturned =>
    refine Or.inl (.of_pc { hsame with } rfl (fun i hi => Or.inl ?_) rfl)
    simp [line,hpc,SubmitterPc.pending]
  case joined k restart hpc hge =>
    refine Or.inl (.of_pc { hsame with } rfl (fun i hi => Or.inl ?_) rfl)
    simp [line,hpc,SubmitterPc.pending]
  case clear restart hpc =>
    obtain ⟨-,hall⟩ := h.clearing restart hpc
    refine Or.inr { hsame with gone := fun i => ?_, drained := fun i hi => (h.line_returned hi (hall i hi)).2, worker := fun _ => rfl, line := fun i => ?_ }
    · by_cases hi : i < s.queueCount
      · exact Or.inr (hall i hi)
      · have hle := h.threads_le
        exact Or.inl ((h.unstarted i).mpr (by omega))
    · cases restart <;> rfl
  case create hpc =>
    obtain ⟨hzero,-⟩ := h.creating hpc
    have hunstarted := h.unstarted_of_empty hzero
    refine Or.inr { hsame with gone := fun i => Or.inl (hunstarted i), drained := fun i hi => ?_, worker := hunstarted, line := fun i => ?_ }
    · omega
    · simp [line,hunstarted,WorkerPc.batch,SubmitterPc.pending]
  case spawn k hpc hlt =>
    obtain ⟨-,-,hlines⟩ := h.spawning k hpc
    obtain ⟨-,-,hlines'⟩ := (h.spawn hpc hlt).spawning (k+1) rfl
    refine Or.inl { hsame with queueCount := rfl, line := fun i _ => Or.inl ((hlines' i).trans (hlines i).symm), worker := fun i => ?_ }
    by_cases hi : i = k
    · subst hi
      exact Or.inr (Or.inr ⟨(h.unstarted i).mpr (by rw [h.threads,hpc]; exact le_rfl),Function.update_self _ _ _⟩)
    · exact Or.inl (Function.update_of_ne hi _ _)
  case spawned k hpc hge =>
    refine Or.inl (.of_pc { hsame with } rfl (fun i hi => Or.inl ?_) rfl)
    simp [line,hpc,SubmitterPc.pending]

theorem Move.call_effect {s t : State X R} {a : Action X R} (hmove : Move s a t)
    (ha : a = .start ∨ a = .stop ∨ ∃ n, a = .setThreadCount n) : Passive s t := by
  have hsame : Unchanged s s := ⟨rfl,rfl,rfl,rfl,rfl,rfl,rfl,rfl,rfl,rfl,rfl⟩
  rcases ha with rfl | rfl | ⟨n,rfl⟩
  · cases hmove with
    | start hpc hrun => exact .of_pc { hsame with } rfl (fun i _ => Or.inl (by simp [line,hpc,SubmitterPc.pending])) rfl
  · cases hmove with
    | stop hpc => exact .of_pc { hsame with } rfl (fun i _ => Or.inr (line_stop hpc none i)) rfl
  · cases hmove with
    | restart hpc hn hrun => exact .of_pc { hsame with } rfl (fun i _ => Or.inr (line_stop hpc (some n) i)) rfl
    | setThreadCount hpc hn hrun => exact .of_pc { hsame with } rfl (fun i _ => Or.inl rfl) rfl

/-- What a step can do, as far as the work of the pool is concerned. -/
theorem Move.effect {s t : State X R} {a : Action X R} (h : PoolInv s) (hmove : Move s a t) :
    (∃ i, a.worker? = some i) ∨ (∃ q r, a = .request q ∧ s.submitter = .idle ∧ s.running = true ∧ plan s q = some r ∧
      t = s.accept q r) ∨ (∀ q, a ≠ .request q) ∧ (Passive s t ∨ Emptied s t) := by
  cases a with
  | request q =>
    cases hmove with
    | request hpc hrun hplan => exact Or.inr (Or.inl ⟨q,_,rfl,hpc,hrun,hplan,rfl⟩)
  | start => exact Or.inr (Or.inr ⟨nofun,Or.inl (hmove.call_effect (Or.inl rfl))⟩)
  | stop => exact Or.inr (Or.inr ⟨nofun,Or.inl (hmove.call_effect (Or.inr (Or.inl rfl)))⟩)
  | setThreadCount n => exact Or.inr (Or.inr ⟨nofun,Or.inl (hmove.call_effect (Or.inr (Or.inr ⟨n,rfl⟩)))⟩)
  | submitter => exact Or.inr (Or.inr ⟨nofun,hmove.submitter_effect h⟩)
  | worker i => exact Or.inl ⟨i,rfl⟩
  | call i r => exact Or.inl ⟨i,rfl⟩
  | spurious i => exact Or.inl ⟨i,rfl⟩

end ThreadPool
end AudioOutput
