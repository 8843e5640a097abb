import AudioOutput.Transition

/-!
# The lightweight semaphore

`LightweightSemaphore` with any number of threads. One step is one access to `m_count`
or to the semaphore of the operating system, which is a counter that `sem_wait` lowers
when it can and that `sem_post` raises. Seen from outside, the two counters together
are one.
-/

namespace AudioOutput
namespace LightweightSemaphore

open Transition

universe u

def initialSpin : ℕ := 10000

/-- The next access of a call. `trying` loads `m_count` in `tryWait`, called by `wait` or by itself,
and `swapping` is its compare-exchange; `spinning` loads it in the loop of
`waitWithPartialSpinning`, or subtracts 1 behind it, and `spinSwapping` exchanges within it;
`sleeping` is `m_sema.wait()`, `signalling` adds to `m_count`, `releasing` posts to `m_sema`. -/
inductive Pc
  | idle
  | trying (waiting : Bool)
  | swapping (waiting : Bool) (oldCount : ℤ)
  | spinning (spin : ℕ)
  | spinSwapping (spin : ℕ) (oldCount : ℤ)
  | sleeping
  | signalling (count : ℕ)
  | releasing (count : ℕ)
  deriving DecidableEq

/-- `m_count` and `m_sema`. -/
structure Counts where
  count : ℤ
  sema : ℕ

/-- `wait` goes on to `waitWithPartialSpinning` when `tryWait` has failed. -/
def afterTry (waiting : Bool) : Pc := if waiting then .spinning initialSpin else .idle

/-- `int toRelease = -oldCount < count ? -oldCount : count`. -/
def toRelease (oldCount : ℤ) (count : ℕ) : ℤ := if -oldCount < count then -oldCount else count

def turn (m : Counts) : Pc → Option (Counts × Pc)
  | .idle => none
  | .trying waiting => some (m,if 0 < m.count then .swapping waiting m.count else afterTry waiting)
  | .swapping waiting oldCount =>
    if m.count = oldCount then some ({ m with count := oldCount-1 },.idle) else some (m,afterTry waiting)
  | .spinning 0 => some ({ m with count := m.count-1 },if m.count ≤ 0 then .sleeping else .idle)
  | .spinning (spin+1) => some (m,if 0 < m.count then .spinSwapping spin m.count else .spinning spin)
  | .spinSwapping spin oldCount =>
    if m.count = oldCount then some ({ m with count := oldCount-1 },.idle) else some (m,.spinning spin)
  | .sleeping => if 0 < m.sema then some ({ m with sema := m.sema-1 },.idle) else none
  | .signalling count =>
    let released := toRelease m.count count
    some ({ m with count := m.count+count },if 0 < released then .releasing released.toNat else .idle)
  | .releasing 0 => some (m,.idle)
  | .releasing (count+1) => some ({ m with sema := m.sema+1 },.releasing count)

inductive Call
  | wait | tryWait
  | signal (count : ℕ)
  deriving DecidableEq

def Call.entry : Call → Pc
  | .wait => .trying true
  | .tryWait => .trying false
  | .signal count => .signalling count

structure State (T : Type u) where
  counts : Counts
  thread : T → Pc

variable {T : Type u}

def initial (initialCount : ℕ) : State T := ⟨⟨initialCount,0⟩,fun _ => .idle⟩

/-- `interrupt`: the `sem_wait` of a sleeper comes back with `EINTR`. -/
inductive Action (T : Type u)
  | call (t : T) (c : Call)
  | step (t : T)
  | interrupt (t : T)
  deriving DecidableEq

variable [DecidableEq T]

def step (s : State T) : Action T → Option (State T)
  | .call t c => if s.thread t = .idle then some { s with thread := Function.update s.thread t c.entry } else none
  | .step t => (turn s.counts (s.thread t)).map fun r => ⟨r.1,Function.update s.thread t r.2⟩
  | .interrupt t => if s.thread t = .sleeping then some s else none

def Reachable (initialCount : ℕ) (s : State T) : Prop := Reaches step (fun _ => True) (initial initialCount) s

inductive Status
  | idle
  | asking (blocking : Bool)
  | signalling (count : ℕ)
  | leaving
  deriving DecidableEq

inductive Event
  | called (c : Call)
  | acquired | refused
  | signalled (count : ℕ)
  | left
  deriving DecidableEq

def Call.status : Call → Status
  | .wait => .asking true
  | .tryWait => .asking false
  | .signal count => .signalling count

/-- What one thread can do with `permits` units. Only `tryWait` comes back without one,
and it may do so at any time. -/
inductive Acts : ℕ → Status → Event → ℕ → Status → Prop
  | call (permits : ℕ) (c : Call) : Acts permits .idle (.called c) permits c.status
  | acquire (permits : ℕ) (blocking : Bool) : Acts (permits+1) (.asking blocking) .acquired permits .idle
  | refuse (permits : ℕ) : Acts permits (.asking false) .refused permits .idle
  | signal (permits count : ℕ) {after : Status} (h : after = .leaving ∨ after = .idle) :
      Acts permits (.signalling count) (.signalled count) (permits+count) after
  | leave (permits : ℕ) : Acts permits .leaving .left permits .idle

structure Semaphore (T : Type u) where
  permits : ℕ
  status : T → Status

inductive Semaphore.Step : Semaphore T → T × Event → Semaphore T → Prop
  | act {σ : Semaphore T} (t : T) {e : Event} {permits : ℕ} {status : Status}
      (h : Acts σ.permits (σ.status t) e permits status) :
      Step σ (t,e) ⟨permits,Function.update σ.status t status⟩

def Pc.status : Pc → Status
  | .idle => .idle
  | .trying waiting | .swapping waiting _ => .asking waiting
  | .spinning _ | .spinSwapping _ _ | .sleeping => .asking true
  | .signalling count => .signalling count
  | .releasing _ => .leaving

/-- Posts to `m_sema` that a call of `signal` has still to make. -/
def Pc.posts : Pc → ℕ
  | .releasing count => count
  | _ => 0

def Pc.sleepers : Pc → ℕ
  | .sleeping => 1
  | _ => 0

/-- The most steps to the end of the call, or to sleep. -/
def Pc.remaining : Pc → ℕ
  | .idle => 0
  | .sleeping => 1
  | .spinning spin => 2*spin+2
  | .spinSwapping spin _ => 2*spin+3
  | .swapping _ _ => 2*initialSpin+3
  | .trying _ => 2*initialSpin+4
  | .signalling count => count+2
  | .releasing count => count+1

def Pc.Positive : Pc → Prop
  | .swapping _ oldCount | .spinSwapping _ oldCount => 0 < oldCount
  | _ => True

/-- What is left for those who have not gone to sleep, and what is meant for those who have. -/
def Counts.available (m : Counts) (posts : ℕ) : ℕ := m.count.toNat+m.sema+posts

/-- What the caller, or another thread, sees of the next access. -/
def shown (m : Counts) : Pc → Option Event
  | .idle => none
  | .trying waiting => if 0 < m.count ∨ waiting = true then none else some .refused
  | .swapping waiting oldCount =>
    if m.count = oldCount then some .acquired else if waiting = true then none else some .refused
  | .spinning 0 => if m.count ≤ 0 then none else some .acquired
  | .spinning (_+1) => none
  | .spinSwapping _ oldCount => if m.count = oldCount then some .acquired else none
  | .sleeping => some .acquired
  | .signalling count => some (.signalled count)
  | .releasing 0 => some .left
  | .releasing (_+1) => none

inductive Turn : Counts → Pc → Option Event → Counts → Pc → Prop
  | read {m : Counts} (waiting : Bool) (h : 0 < m.count) : Turn m (.trying waiting) none m (.swapping waiting m.count)
  | spinRead {m : Counts} (spin : ℕ) (h : 0 < m.count) :
      Turn m (.spinning (spin+1)) none m (.spinSwapping spin m.count)
  | refuse {m : Counts} {p : Pc} (h : p.status = .asking false) : Turn m p (some .refused) m .idle
  | goOn {m : Counts} {p : Pc} (h : p.status = .asking true) {spin : ℕ} (hawake : p.sleepers = 0)
      (hlt : 2*spin+2 < p.remaining) : Turn m p none m (.spinning spin)
  | swap {m : Counts} {p : Pc} {blocking : Bool} (h : p.status = .asking blocking) (hawake : p.sleepers = 0)
      (hpos : 0 < m.count) : Turn m p (some .acquired) { m with count := m.count-1 } .idle
  | sleep {m : Counts} (h : m.count ≤ 0) : Turn m (.spinning 0) none { m with count := m.count-1 } .sleeping
  | wake {m : Counts} (h : 0 < m.sema) : Turn m .sleeping (some .acquired) { m with sema := m.sema-1 } .idle
  | signal {m : Counts} (count : ℕ) (h : toRelease m.count count ≤ 0) :
      Turn m (.signalling count) (some (.signalled count)) { m with count := m.count+count } .idle
  | signalSleepers {m : Counts} (count : ℕ) (h : 0 < toRelease m.count count) :
      Turn m (.signalling count) (some (.signalled count)) { m with count := m.count+count }
        (.releasing (toRelease m.count count).toNat)
  | post {m : Counts} (count : ℕ) : Turn m (.releasing (count+1)) none { m with sema := m.sema+1 } (.releasing count)
  | leave {m : Counts} : Turn m (.releasing 0) (some .left) m .idle

variable {m m' : Counts} {p q : Pc}

theorem turn_cases (hpos : p.Positive) (h : turn m p = some (m',q)) : Turn m p (shown m p) m' q := by
  cases p with
  | idle => cases h
  | trying waiting =>
    cases h
    by_cases hread : 0 < m.count
    · simpa [shown,hread] using Turn.read waiting hread
    · cases waiting with
      | false => simpa [shown,hread,afterTry] using Turn.refuse (p := .trying false) rfl
      | true => simpa [shown,hread,afterTry] using Turn.goOn (p := .trying true) rfl rfl (by simp [Pc.remaining])
  | swapping waiting oldCount =>
    by_cases heq : m.count = oldCount
    · rw [turn,if_pos heq] at h
      cases h
      rw [← heq]
      simpa [shown] using Turn.swap (p := .swapping waiting m.count) rfl rfl (heq ▸ hpos)
    · rw [turn,if_neg heq] at h
      cases h
      cases waiting with
      | false => simpa [shown,heq,afterTry] using Turn.refuse (p := .swapping false oldCount) rfl
      | true => simpa [shown,heq,afterTry] using Turn.goOn (p := .swapping true oldCount) rfl rfl (by simp [Pc.remaining])
  | spinning spin =>
    cases spin with
    | zero =>
      cases h
      by_cases hle : m.count ≤ 0
      · simpa [shown,hle] using Turn.sleep hle
      · simpa [shown,hle] using Turn.swap (p := .spinning 0) rfl rfl (not_le.mp hle)
    | succ spin =>
      cases h
      by_cases hread : 0 < m.count
      · simpa [shown,hread] using Turn.spinRead spin hread
      · simpa [shown,hread] using Turn.goOn (p := .spinning (spin+1)) rfl rfl (by simp [Pc.remaining])
  | spinSwapping spin oldCount =>
    by_cases heq : m.count = oldCount
    · rw [turn,if_pos heq] at h
      cases h
      rw [← heq]
      simpa [shown] using Turn.swap (p := .spinSwapping spin m.count) rfl rfl (heq ▸ hpos)
    · rw [turn,if_neg heq] at h
      cases h
      simpa [shown,heq] using Turn.goOn (p := .spinSwapping spin oldCount) rfl rfl (by simp [Pc.remaining])
  | sleeping =>
    by_cases hsema : 0 < m.sema
    · rw [turn,if_pos hsema] at h
      cases h
      exact .wake hsema
    · rw [turn,if_neg hsema] at h
      cases h
  | signalling count =>
    cases h
    by_cases hrel : 0 < toRelease m.count count
    · simpa [shown,hrel] using Turn.signalSleepers count hrel
    · simpa [shown,hrel] using Turn.signal count (not_lt.mp hrel)
  | releasing count =>
    cases count with
    | zero =>
      cases h
      exact .leave
    | succ count =>
      cases h
      exact .post count

theorem posts_of_asking {blocking : Bool} (h : p.status = .asking blocking) : p.posts = 0 := by
  cases p <;> first | rfl | cases h

theorem sleepers_of_asking_false (h : p.status = .asking false) : p.sleepers = 0 := by
  cases p <;> first | rfl | cases h

theorem remaining_of_asking {blocking : Bool} (h : p.status = .asking blocking) : 0 < p.remaining := by
  cases p <;> simp_all [Pc.status,Pc.remaining]

namespace Turn

variable {shown : Option Event}

theorem positive (h : Turn m p shown m' q) : q.Positive := by
  cases h <;> first | assumption | trivial

/-- The units promised to sleepers, posted or not, and those still owed to them are as
many as there are sleepers. -/
theorem balance (h : Turn m p shown m' q) :
    q.sleepers+m.sema+p.posts+(-m.count).toNat = p.sleepers+m'.sema+q.posts+(-m'.count).toNat := by
  cases h with
  | read => rfl
  | spinRead => rfl
  | refuse hp =>
    rw [posts_of_asking hp,sleepers_of_asking_false hp]
    rfl
  | goOn hp hawake =>
    rw [posts_of_asking hp,hawake]
    rfl
  | swap hp hawake hpos =>
    rw [posts_of_asking hp,hawake]
    simp only [Pc.posts,Pc.sleepers]
    omega
  | sleep hle =>
    simp only [Pc.posts,Pc.sleepers]
    omega
  | wake hsema =>
    simp only [Pc.posts,Pc.sleepers]
    omega
  | signal count hrel =>
    unfold toRelease at hrel
    simp only [Pc.posts,Pc.sleepers]
    omega
  | signalSleepers count hrel =>
    unfold toRelease at hrel ⊢
    simp only [Pc.posts,Pc.sleepers]
    omega
  | post count =>
    simp only [Pc.posts,Pc.sleepers]
    omega
  | leave => rfl

theorem quiet (h : Turn m p none m' q) (others : ℕ) :
    m'.available (q.posts+others) = m.available (p.posts+others) ∧ q.status = p.status := by
  generalize hshown : none = shown at h
  cases h with
  | read => exact ⟨rfl,rfl⟩
  | spinRead => exact ⟨rfl,rfl⟩
  | goOn hp => exact ⟨by rw [posts_of_asking hp]; rfl,hp.symm⟩
  | sleep hle =>
    refine ⟨?_,rfl⟩
    simp only [Counts.available,Pc.posts]
    omega
  | post count =>
    refine ⟨?_,rfl⟩
    simp only [Counts.available,Pc.posts]
    omega
  | _ => cases hshown

/-- A step that is seen is one of the single counter, whatever the other threads have
still to post. -/
theorem acts {e : Event} (h : Turn m p (some e) m' q) (others : ℕ) :
    Acts (m.available (p.posts+others)) p.status e (m'.available (q.posts+others)) q.status := by
  generalize hshown : some e = shown at h
  cases h with
  | refuse hp =>
    cases hshown
    rw [hp,posts_of_asking hp]
    exact .refuse _
  | @swap p blocking hp hawake hpos =>
    cases hshown
    have hone : m.available (p.posts+others) = ({ m with count := m.count-1 } : Counts).available (0+others)+1 := by
      simp only [Counts.available,posts_of_asking hp]
      omega
    rw [hp,hone]
    exact .acquire _ blocking
  | wake hsema =>
    cases hshown
    have hone : m.available (0+others) = ({ m with sema := m.sema-1 } : Counts).available (0+others)+1 := by
      simp only [Counts.available]
      omega
    exact hone ▸ .acquire _ true
  | signal count hrel =>
    cases hshown
    have hmore : ({ m with count := m.count+count } : Counts).available (0+others) = m.available (0+others)+count := by
      unfold toRelease at hrel
      simp only [Counts.available]
      omega
    exact hmore ▸ .signal _ count (Or.inr rfl)
  | signalSleepers count hrel =>
    cases hshown
    have hmore : ({ m with count := m.count+count } : Counts).available ((toRelease m.count count).toNat+others) =
        m.available (0+others)+count := by
      unfold toRelease at hrel ⊢
      simp only [Counts.available]
      omega
    exact hmore ▸ .signal _ count (Or.inl rfl)
  | leave =>
    cases hshown
    exact .leave _
  | _ => cases hshown

theorem remaining_lt (h : Turn m p shown m' q) : q.remaining < p.remaining := by
  cases h with
  | refuse hp => exact remaining_of_asking hp
  | goOn hp hawake hlt => exact hlt
  | swap hp => exact remaining_of_asking hp
  | signalSleepers count hrel =>
    unfold toRelease
    simp only [Pc.remaining]
    omega
  | spinRead spin =>
    simp only [Pc.remaining]
    omega
  | _ => simp [Pc.remaining]

end Turn

theorem entry_status (c : Call) : c.entry.status = c.status := by
  cases c <;> rfl

theorem entry_positive (c : Call) : c.entry.Positive := by
  cases c <;> trivial

theorem entry_posts (c : Call) : c.entry.posts = 0 := by
  cases c <;> rfl

theorem entry_sleepers (c : Call) : c.entry.sleepers = 0 := by
  cases c <;> rfl

variable [Fintype T] {s u : State T} {a : Action T} {t : T}

def posts (s : State T) : ℕ := ∑ t, (s.thread t).posts

def sleepers (s : State T) : ℕ := ∑ t, (s.thread t).sleepers

def permits (s : State T) : ℕ := s.counts.available (posts s)

def semaphore (s : State T) : Semaphore T := ⟨permits s,fun t => (s.thread t).status⟩

/-- Every sleeper has a unit coming, or is counted in `m_count`. -/
structure Balanced (s : State T) : Prop where
  positive : ∀ t, (s.thread t).Positive
  asleep : sleepers s = s.counts.sema+posts s+(-s.counts.count).toNat

omit [DecidableEq T] in
theorem initial_balanced (initialCount : ℕ) : Balanced (initial (T := T) initialCount) where
  positive _ := trivial
  asleep := by simp [sleepers,posts,initial,Pc.sleepers,Pc.posts]

/-- One step of the whole, as one of a thread among the others. -/
inductive Moved (s : State T) : Action T → State T → Prop
  | call {t : T} {c : Call} (h : s.thread t = .idle) :
      Moved s (.call t c) { s with thread := Function.update s.thread t c.entry }
  | turn {t : T} {m : Counts} {pc : Pc} (h : Turn s.counts (s.thread t) (shown s.counts (s.thread t)) m pc) :
      Moved s (.step t) ⟨m,Function.update s.thread t pc⟩
  | interrupt {t : T} (h : s.thread t = .sleeping) : Moved s (.interrupt t) s

omit [Fintype T] in
theorem step_moved (hs : ∀ t, (s.thread t).Positive) (h : step s a = some u) : Moved s a u := by
  cases a with
  | call t c =>
    by_cases hidle : s.thread t = .idle
    · rw [step,if_pos hidle] at h
      cases h
      exact .call hidle
    · rw [step,if_neg hidle] at h
      cases h
  | step t =>
    obtain ⟨⟨m,pc⟩,hturn,rfl⟩ := Option.map_eq_some_iff.mp h
    exact .turn (turn_cases (hs t) hturn)
  | interrupt t =>
    by_cases hsleep : s.thread t = .sleeping
    · rw [step,if_pos hsleep] at h
      cases h
      exact .interrupt hsleep
    · rw [step,if_neg hsleep] at h
      cases h

omit [Fintype T] in
theorem positive_update {pc : Pc} (hs : ∀ t, (s.thread t).Positive) (hpc : pc.Positive) (t v : T) :
    (Function.update s.thread t pc v).Positive := by
  by_cases hv : v = t
  · rwa [hv,Function.update_self]
  · rw [Function.update_of_ne hv]
    exact hs v

theorem Balanced.preserved (hs : Balanced s) (h : step s a = some u) : Balanced u := by
  have hbal := hs.asleep
  cases step_moved hs.positive h with
  | @call t c hidle =>
    have hposts := sum_update Pc.posts s.thread t c.entry
    have hsleep := sum_update Pc.sleepers s.thread t c.entry
    rw [hidle,entry_posts,show Pc.idle.posts = 0 from rfl] at hposts
    rw [hidle,entry_sleepers,show Pc.idle.sleepers = 0 from rfl] at hsleep
    refine ⟨positive_update hs.positive (entry_positive c) t,?_⟩
    simp only [sleepers,posts] at *
    omega
  | @turn t m pc hturn =>
    have hposts := sum_update Pc.posts s.thread t pc
    have hsleep := sum_update Pc.sleepers s.thread t pc
    have hlocal := hturn.balance
    refine ⟨positive_update hs.positive hturn.positive t,?_⟩
    simp only [sleepers,posts] at *
    omega
  | interrupt => exact hs

theorem Reachable.balanced {initialCount : ℕ} (h : Reachable initialCount s) : Balanced s :=
  h.invariant (initial_balanced initialCount) fun _ _ _ _ hs hstep => hs.preserved hstep

def emit (s : State T) : Action T → Option (T × Event)
  | .call t c => some (t,.called c)
  | .step t => (shown s.counts (s.thread t)).map fun e => (t,e)
  | .interrupt _ => none

omit [Fintype T] in
theorem status_update (pc : Pc) (t : T) : (fun v => (Function.update s.thread t pc v).status) =
    Function.update (fun v => (s.thread v).status) t pc.status :=
  Function.comp_update Pc.status s.thread t pc

theorem exists_others (s : State T) (t : T) :
    ∃ others, ∀ pc : Pc, ∑ v, (Function.update s.thread t pc v).posts = pc.posts+others := by
  refine ⟨∑ v ∈ Finset.univ.erase t, (s.thread v).posts,fun pc => ?_⟩
  have hmove := sum_update Pc.posts s.thread t pc
  have hsplit := Finset.add_sum_erase Finset.univ (fun v => (s.thread v).posts) (Finset.mem_univ t)
  omega

section One

variable {others : ℕ} (h : ∀ pc : Pc, ∑ v, (Function.update s.thread t pc v).posts = pc.posts+others)

include h

theorem permits_eq : permits s = s.counts.available ((s.thread t).posts+others) := by
  rw [permits,posts,← h,Function.update_eq_self]

theorem semaphore_update (m : Counts) (pc : Pc) : semaphore ⟨m,Function.update s.thread t pc⟩ =
    ⟨m.available (pc.posts+others),Function.update (semaphore s).status t pc.status⟩ := by
  simp only [semaphore,permits,posts,h,status_update]

end One

theorem quiet_step (hs : Balanced s) (h : step s a = some u) (hquiet : emit s a = none) : semaphore u = semaphore s := by
  cases step_moved hs.positive h with
  | call => cases hquiet
  | @turn t m pc hturn =>
    rw [Option.map_eq_none_iff.mp hquiet] at hturn
    obtain ⟨others,hothers⟩ := exists_others s t
    obtain ⟨havail,hstatus⟩ := hturn.quiet others
    have hself : Function.update (semaphore s).status t (s.thread t).status = (semaphore s).status :=
      Function.update_eq_self t (semaphore s).status
    rw [semaphore_update hothers,havail,hstatus,← permits_eq hothers,hself]
    rfl
  | interrupt => rfl

theorem shown_step {e : T × Event} (hs : Balanced s) (h : step s a = some u) (he : emit s a = some e) :
    (semaphore s).Step e (semaphore u) := by
  cases step_moved hs.positive h with
  | @call t c hidle =>
    cases he
    obtain ⟨others,hothers⟩ := exists_others s t
    have hpermits : s.counts.available (c.entry.posts+others) = permits s := by
      rw [permits_eq hothers,hidle,entry_posts]
      rfl
    have hact : Acts (permits s) (s.thread t).status (.called c) (permits s) c.status := by
      rw [hidle]
      exact .call _ c
    rw [semaphore_update hothers,hpermits,entry_status]
    exact .act t hact
  | @turn t m pc hturn =>
    obtain ⟨e,hshown,rfl⟩ := Option.map_eq_some_iff.mp he
    rw [hshown] at hturn
    obtain ⟨others,hothers⟩ := exists_others s t
    have hact := hturn.acts others
    rw [← permits_eq hothers] at hact
    rw [semaphore_update hothers]
    exact .act t hact
  | interrupt => cases he

omit [DecidableEq T] in
theorem semaphore_initial (initialCount : ℕ) :
    semaphore (initial (T := T) initialCount) = ⟨initialCount,fun _ => .idle⟩ := by
  simp [semaphore,permits,posts,initial,Counts.available,Pc.posts,Pc.status]

/-- Whatever the threads do, what is seen of them is a run of a semaphore with one counter
that starts at `initialCount`. -/
theorem semaphore_refines {initialCount : ℕ} {as : List (Action T)} (h : run step (initial initialCount) as = some u) :
    Accepts Semaphore.Step ⟨initialCount,fun _ => .idle⟩ (trace step emit (initial initialCount) as) (semaphore u) := by
  rw [← semaphore_initial]
  exact simulates_of_invariant (fun _ _ _ hs hstep => hs.preserved hstep) (fun _ _ _ => quiet_step)
    (fun _ _ _ _ => shown_step) (initial_balanced initialCount) h

def exchange : List (Action Bool) := [.call true .wait,.step true,.step true,.call false (.signal 2),.step false]

theorem semaphore_refines_exchange : ∃ u : State Bool, run step (initial 1) exchange = some u ∧ permits u = 2 ∧
    Accepts Semaphore.Step ⟨1,fun _ => .idle⟩
      [(true,.called .wait),(true,.acquired),(false,.called (.signal 2)),(false,.signalled 2)] (semaphore u) := by
  have hrun : (run step (initial 1) exchange).isSome := rfl
  exact ⟨_,(Option.some_get hrun).symm,rfl,semaphore_refines (Option.some_get hrun).symm⟩

omit [DecidableEq T] in
/-- A unit that is there while a thread sleeps is one it can take, or is being posted. -/
theorem Balanced.unit_coming (hs : Balanced s) (ht : s.thread t = .sleeping) (hunits : 0 < permits s) :
    0 < s.counts.sema ∨ ∃ v count, s.thread v = .releasing (count+1) := by
  have hbal := hs.asleep
  have hsleeper : (s.thread t).sleepers ≤ sleepers s :=
    Finset.single_le_sum (f := fun v => (s.thread v).sleepers) (fun _ _ => Nat.zero_le _) (Finset.mem_univ t)
  rw [ht,show Pc.sleeping.sleepers = 1 from rfl] at hsleeper
  by_cases hsema : 0 < s.counts.sema
  · exact Or.inl hsema
  · right
    have hposts : posts s ≠ 0 := by
      simp only [permits,Counts.available] at hunits
      omega
    obtain ⟨v,-,hv⟩ := Finset.exists_ne_zero_of_sum_ne_zero hposts
    cases hpc : s.thread v with
    | releasing count =>
      cases count with
      | zero => simp [hpc,Pc.posts] at hv
      | succ count => exact ⟨v,count,hpc⟩
    | _ => simp [hpc,Pc.posts] at hv

theorem turn_isSome (hidle : p ≠ .idle) (hsleep : p = .sleeping → 0 < m.sema) : ∃ m' q, turn m p = some (m',q) := by
  cases p with
  | idle => exact absurd rfl hidle
  | trying => exact ⟨_,_,rfl⟩
  | swapping waiting oldCount =>
    by_cases heq : m.count = oldCount
    · exact ⟨_,_,if_pos heq⟩
    · exact ⟨_,_,if_neg heq⟩
  | spinning spin => cases spin <;> exact ⟨_,_,rfl⟩
  | spinSwapping spin oldCount =>
    by_cases heq : m.count = oldCount
    · exact ⟨_,_,if_pos heq⟩
    · exact ⟨_,_,if_neg heq⟩
  | sleeping => exact ⟨_,_,if_pos (hsleep rfl)⟩
  | signalling => exact ⟨_,_,rfl⟩
  | releasing count => cases count <;> exact ⟨_,_,rfl⟩

def remaining (s : State T) : ℕ := ∑ t, (s.thread t).remaining

/-- Nobody has a step left: all calls have returned, but for calls of `wait` that there
are no units for. -/
def Settled (s : State T) : Prop :=
  ∀ t, s.thread t = .idle ∨ s.thread t = .sleeping ∧ permits s = 0

theorem Turn.total_lt {pc : Pc} {e : Option Event} (h : Turn s.counts (s.thread t) e m pc) :
    remaining ⟨m,Function.update s.thread t pc⟩ < remaining s := by
  have hmove := sum_update Pc.remaining s.thread t pc
  have hlt := h.remaining_lt
  simp only [remaining]
  omega

def Within : Action T → Prop
  | .call _ _ => False
  | _ => True

theorem Balanced.stays_or_lower (hs : Balanced s) (ha : Within a) (h : step s a = some u) :
    u = s ∨ remaining u < remaining s := by
  cases step_moved hs.positive h with
  | call => cases ha
  | turn hturn => exact Or.inr hturn.total_lt
  | interrupt => exact Or.inl rfl

theorem Balanced.enabled (hs : Balanced s) (hidle : s.thread t ≠ .idle)
    (hsleep : s.thread t = .sleeping → 0 < s.counts.sema) : ∃ u, step s (.step t) = some u ∧ remaining u < remaining s := by
  obtain ⟨m,pc,hturn⟩ := turn_isSome hidle hsleep
  refine ⟨⟨m,Function.update s.thread t pc⟩,by rw [step,hturn]; rfl,?_⟩
  exact (turn_cases (hs.positive t) hturn).total_lt

theorem Balanced.progress (hs : Balanced s) (h : ¬ Settled s) :
    ∃ a u, (∃ t, a = .step t) ∧ step s a = some u ∧ remaining u < remaining s := by
  by_cases hbusy : ∃ t, s.thread t ≠ .idle ∧ s.thread t ≠ .sleeping
  · obtain ⟨t,hidle,hsleep⟩ := hbusy
    obtain ⟨u,hu,hlt⟩ := hs.enabled hidle fun heq => absurd heq hsleep
    exact ⟨.step t,u,⟨t,rfl⟩,hu,hlt⟩
  · push Not at hbusy
    obtain ⟨t,ht⟩ := not_forall.mp h
    push Not at ht
    have hsleep := hbusy t ht.1
    rcases hs.unit_coming hsleep (Nat.pos_of_ne_zero (ht.2 hsleep)) with hsema | ⟨v,count,hv⟩
    · obtain ⟨u,hu,hlt⟩ := hs.enabled ht.1 fun _ => hsema
      exact ⟨.step t,u,⟨t,rfl⟩,hu,hlt⟩
    · have := hbusy v (by rw [hv]; exact Pc.noConfusion)
      rw [hv] at this
      cases this

/-- However `sem_wait` is interrupted and however long others spin, a unit and a sleeper do
not miss each other, and threads that are all given their turns get through their calls,
but for as many calls of `wait` as there are too few units. -/
theorem semaphore_settles {initialCount : ℕ} (h : Reachable initialCount s) :
    (∀ t, s.thread t = .sleeping → 0 < permits s →
      0 < s.counts.sema ∨ ∃ v count, s.thread v = .releasing (count+1)) ∧
    ∀ e : Execution step (Within (T := T)), e.state 0 = s → e.FairTo (fun a => ∃ t, a = .step t) →
      ∃ n, Settled (e.state n) := by
  have hs := h.balanced
  refine ⟨fun t ht hunits => hs.unit_coming ht hunits,fun e he hfair => ?_⟩
  exact e.eventually_of_fairTo hfair remaining (I := Balanced) (he ▸ hs) (fun _ _ _ _ hs hstep => hs.preserved hstep)
    (fun _ _ _ ha hs _ hstep => hs.stays_or_lower ha hstep) fun _ hs hnot => hs.progress hnot

theorem semaphore_settles_exchange : ∃ s : State Bool, permits s = 2 ∧
    ∀ e : Execution step (Within (T := Bool)), e.state 0 = s → e.FairTo (fun a => ∃ t, a = .step t) →
      ∃ n, Settled (e.state n) := by
  have hrun : (run step (initial 1) exchange).isSome := rfl
  have hreach : Reachable 1 _ := Reaches.of_run (fun _ _ => trivial) (Option.some_get hrun).symm
  exact ⟨_,rfl,(semaphore_settles hreach).2⟩

end LightweightSemaphore
end AudioOutput
