import AudioOutput.ThreadPoolWork

/-!
# Barriers

A barrier has one copy in every line, and the barriers and jobs of a line stand in
the order in which they were submitted. A worker is through barrier `b` only when
every worker has reached it.
-/

namespace AudioOutput
namespace ThreadPool

universe u
variable {X R : Type u}

theorem wrap_eq {n a : ℕ} (h : a < n+n) : a%n = if a < n then a else a-n := by
  split
  · next hlt => exact Nat.mod_eq_of_lt hlt
  · next hge => rw [Nat.mod_eq_sub_mod (by omega),Nat.mod_eq_of_lt (by omega)]

/-- The rotating pointer comes by each queue once, wherever it starts. -/
theorem rotation_covers {n pointer i : ℕ} (hpointer : pointer < n) (hi : i < n) :
    (List.range n).filter (fun k => (pointer+k)%n = i) = [(i+(n-pointer))%n] := by
  have hnodup : ((List.range n).filter (fun k => (pointer+k)%n = i)).Nodup := List.nodup_range.filter _
  refine List.perm_singleton.mp ((List.perm_ext_iff_of_nodup hnodup (List.nodup_singleton _)).mpr fun k => ?_)
  have hstart : (i+(n-pointer))%n = if i+(n-pointer) < n then i+(n-pointer) else i+(n-pointer)-n := wrap_eq (by omega)
  simp only [List.mem_filter,List.mem_range,decide_eq_true_eq,List.mem_singleton,hstart]
  constructor
  · rintro ⟨hk,hmod⟩
    rw [wrap_eq (by omega)] at hmod
    split_ifs at hmod ⊢ <;> omega
  · intro hk
    have hlt : k < n := by split_ifs at hk <;> omega
    refine ⟨hlt,?_⟩
    rw [wrap_eq (by omega)]
    split_ifs at hk ⊢ <;> omega

theorem submitJobRange_replicate {n pointer : ℕ} (hpointer : pointer < n) (m : ℕ) (item : Item X) :
    (submitJobRange n pointer (List.replicate m item)).1 = (List.range m).map fun k => .enqueue ((pointer+k)%n) item := by
  induction m generalizing pointer with
  | zero => rfl
  | succ m ih =>
    have hnext : (pointer+1)%n < n := Nat.mod_lt _ (by omega)
    have hmod (k : ℕ) : ((pointer+1)%n+k)%n = (pointer+(k+1))%n := by
      rw [Nat.mod_add_mod]
      congr 1
      omega
    rw [List.replicate_succ,submitJobRange,List.range_succ_eq_map]
    simp only [submitJob,ih hnext,hmod,List.map_cons,List.map_map,Nat.add_zero,Nat.mod_eq_of_lt hpointer]
    rfl

/-- `submitBarrier` enqueues exactly one copy in each queue. -/
theorem submitBarrier_covers {n pointer : ℕ} (hpointer : pointer < n) (b : ℕ) {i : ℕ} (hi : i < n) :
    (submitBarrier n pointer b : List (Put X) × ℕ).1.filter (·.index = i) = [.enqueue i (.barrier b)] := by
  have hone := rotation_covers hpointer hi
  have hmem : (i+(n-pointer))%n ∈ (List.range n).filter (fun k => (pointer+k)%n = i) := by simp [hone]
  have hindex : (pointer+(i+(n-pointer))%n)%n = i := by simpa using (List.mem_filter.mp hmem).2
  rw [submitBarrier,submitJobRange_replicate hpointer,List.filter_map]
  refine (congrArg (List.map fun k => Put.enqueue ((pointer+k)%n) (.barrier b)) hone).trans ?_
  rw [List.map_cons,List.map_nil,hindex]

def Item.barrier? : Item X → Option ℕ
  | .barrier b => some b
  | _ => none

/-- The items lead from epoch `e` to epoch `e'`: each job is of the current epoch, and
each barrier ends it. -/
def Follows : ℕ → List (Item X) → ℕ → Prop
  | e, [], e' => e = e'
  | e, .job j :: rest, e' => j.epoch = e ∧ Follows e rest e'
  | e, .barrier b :: rest, e' => b = e ∧ Follows (e+1) rest e'
  | e, .poison :: rest, e' => Follows e rest e'

theorem Follows.append {e e' e'' : ℕ} {as bs : List (Item X)} (ha : Follows e as e') (hb : Follows e' bs e'') :
    Follows e (as ++ bs) e'' := by
  induction as generalizing e with
  | nil =>
    obtain rfl : e = e' := ha
    exact hb
  | cons item as ih =>
    cases item with
    | job j => exact ⟨ha.1,ih ha.2⟩
    | barrier b => exact ⟨ha.1,ih ha.2⟩
    | poison => exact ih ha

theorem Follows.length {e e' : ℕ} {items : List (Item X)} (h : Follows e items e') :
    e+(items.filterMap Item.barrier?).length = e' := by
  induction items generalizing e with
  | nil => exact h
  | cons item items ih =>
    cases item with
    | job j => exact ih h.2
    | barrier b =>
      have hrest := ih h.2
      simp only [List.filterMap_cons,Item.barrier?,List.length_cons] at hrest ⊢
      omega
    | poison => exact ih h

theorem Follows.barrier_mem {e e' b : ℕ} {items : List (Item X)} (h : Follows e items e') :
    .barrier b ∈ items ↔ e ≤ b ∧ b < e' := by
  induction items generalizing e with
  | nil =>
    obtain rfl : e = e' := h
    simp
  | cons item items ih =>
    cases item with
    | job j => simpa using ih h.2
    | barrier c =>
      obtain ⟨rfl,hrest⟩ := h
      have hle := hrest.length
      rw [List.mem_cons,ih hrest,Item.barrier.injEq]
      omega
    | poison => simpa using ih h

theorem Follows.epoch_le {e e' : ℕ} {items : List (Item X)} {j : Job X} (h : Follows e items e') (hj : .job j ∈ items) :
    e ≤ j.epoch := by
  induction items generalizing e with
  | nil => cases hj
  | cons item items ih =>
    cases item with
    | job j' =>
      rcases List.mem_cons.mp hj with heq | hj
      · cases heq
        exact h.1.ge
      · exact ih h.2 hj
    | barrier b =>
      rcases List.mem_cons.mp hj with heq | hj
      · cases heq
      · have hlt := ih h.2 hj
        omega
    | poison =>
      rcases List.mem_cons.mp hj with heq | hj
      · cases heq
      · exact ih h hj

theorem Follows.of_jobs {e : ℕ} {items : List (Item X)} (h : ∀ item ∈ items, ∃ j, item = .job j ∧ j.epoch = e) :
    Follows e items e := by
  induction items with
  | nil => rfl
  | cons item items ih =>
    obtain ⟨j,rfl,hj⟩ := h item List.mem_cons_self
    exact ⟨hj,ih fun item hitem => h item (List.mem_cons_of_mem _ hitem)⟩

/-- The barriers that worker `i` has begun; the others are still in its line. -/
def passed (s : State X R) (i : ℕ) : ℕ := s.barriers-((line s i).filterMap Item.barrier?).length

theorem passed_eq {s : State X R} {i e : ℕ} (h : Follows e (line s i) s.barriers) : passed s i = e := by
  have hlength := h.length
  rw [passed]
  omega

/-- How many workers have not begun barrier `b` yet. -/
def behind (s : State X R) (b : ℕ) : ℕ := ∑ i ∈ Finset.range s.queueCount, if passed s i ≤ b then 1 else 0

def WorkerPc.inBarrier : WorkerPc X R → Option ℕ
  | .releasing b _ | .waiting b _ => some b
  | _ => none

def WorkerPc.releases : WorkerPc X R → Option ℕ
  | .releasing b _ => some b
  | _ => none

/-- The counter of a barrier counts the workers that have begun it; the last one
releases it, and only then anyone gets through. -/
structure BarrierInv (s : State X R) : Prop where
  follows : ∀ i < s.queueCount, Follows (passed s i) (line s i) s.barriers
  counted : ∀ b < s.barriers, s.counter b+behind s b = s.goal b
  fresh : ∀ b, s.barriers ≤ b → s.counter b = 0
  complete : ∀ b < s.barriers, s.counter b = s.goal b → s.released b = true ∨ ∃ i, (s.worker i).releases = some b
  released : ∀ b, s.released b = true → b < s.barriers ∧ s.counter b = s.goal b
  releasing : ∀ i b, (s.worker i).releases = some b → b < s.barriers ∧ s.counter b = s.goal b
  inside : ∀ i < s.queueCount, ∀ b, (s.worker i).inBarrier = some b → passed s i = b+1
  through : ∀ i < s.queueCount, ∀ b < passed s i, s.released b = true ∨ (s.worker i).inBarrier = some b
  running : ∀ i < s.queueCount, ∀ x, (s.worker i).underWay = some x → x.1.epoch = passed s i
  begun : ∀ j ∈ s.begun, ∀ b < j.epoch, s.released b = true

theorem initial_barrierInv (n : ℕ) : BarrierInv (initial X R n) := by
  constructor <;> simp [initial,WorkerPc.releases]

structure Quiet (s t : State X R) : Prop where
  queueCount : t.queueCount = s.queueCount
  barriers : t.barriers = s.barriers
  counter : t.counter = s.counter
  goal : t.goal = s.goal
  released : t.released = s.released
  begun : ∀ j ∈ t.begun, j ∈ s.begun ∨ ∃ i < s.queueCount, (s.worker i).inBarrier = none ∧ j.epoch = passed s i
  follows : ∀ i < s.queueCount, ∀ e, Follows e (line s i) s.barriers → Follows e (line t i) s.barriers
  inBarrier : ∀ i, (t.worker i).inBarrier = (s.worker i).inBarrier
  releases : ∀ i, (t.worker i).releases = (s.worker i).releases
  underWay : ∀ i < s.queueCount, ∀ x, (t.worker i).underWay = some x → x.1.epoch = passed s i

theorem behind_congr {s t : State X R} (hcount : t.queueCount = s.queueCount)
    (h : ∀ i < s.queueCount, passed t i = passed s i) (b : ℕ) : behind t b = behind s b := by
  rw [behind,behind,hcount]
  exact Finset.sum_congr rfl fun i hi => by rw [h i (Finset.mem_range.mp hi)]

theorem BarrierInv.quiet {s t : State X R} (h : BarrierInv s) (hq : Quiet s t) : BarrierInv t := by
  obtain ⟨hcount,hbarriers,hcounter,hgoal,hreleased,hbegun,hfollows,hin,hrel,hway⟩ := hq
  have hline (i : ℕ) (hi : i < s.queueCount) : Follows (passed s i) (line t i) t.barriers := by
    rw [hbarriers]
    exact hfollows i hi _ (h.follows i hi)
  have hpassed (i : ℕ) (hi : i < s.queueCount) : passed t i = passed s i := passed_eq (hline i hi)
  have hbehind := behind_congr hcount hpassed
  constructor <;> simp only [hcount,hbarriers,hcounter,hgoal,hreleased,hin,hrel]
  case follows =>
    intro i hi
    rw [hpassed i hi,← hbarriers]
    exact hline i hi
  case counted =>
    intro b hb
    rw [hbehind]
    exact h.counted b hb
  case fresh => exact h.fresh
  case complete => exact h.complete
  case released => exact h.released
  case releasing => exact h.releasing
  case inside =>
    intro i hi b hb
    rw [hpassed i hi]
    exact h.inside i hi b hb
  case through =>
    intro i hi b hb
    rw [hpassed i hi] at hb
    exact h.through i hi b hb
  case running =>
    intro i hi x hx
    rw [hpassed i hi]
    exact hway i hi x hx
  case begun =>
    intro j hj b hb
    rcases hbegun j hj with hj | ⟨i,hi,hnone,hepoch⟩
    · exact h.begun j hj b hb
    · refine (h.through i hi b (by omega)).resolve_right fun hin => ?_
      rw [hnone] at hin
      cases hin

theorem WorkerPc.releases_inBarrier {pc : WorkerPc X R} {b : ℕ} (h : pc.releases = some b) : pc.inBarrier = some b := by
  cases pc <;> first | exact h | cases h

/-- A worker that begins no barrier and is in none before or after. -/
theorem BarrierInv.of_local {s t : State X R} {i : ℕ} (h : BarrierInv s) (hlocal : Local i s t) (hi : i < s.queueCount)
    (hsame : t.barriers = s.barriers ∧ t.counter = s.counter ∧ t.goal = s.goal ∧ t.released = s.released)
    (hbegun : ∀ j ∈ t.begun, j ∈ s.begun ∨ j.epoch = passed s i)
    (hline : ∀ e, Follows e (line s i) s.barriers → Follows e (line t i) s.barriers)
    (hs : (s.worker i).inBarrier = none) (ht : (t.worker i).inBarrier = none)
    (hway : ∀ x, (t.worker i).underWay = some x → x.1.epoch = passed s i) : BarrierInv t := by
  obtain ⟨hbarriers,hcounter,hgoal,hreleased⟩ := hsame
  have hnone {pc : WorkerPc X R} (hpc : pc.inBarrier = none) : pc.releases = none := by
    cases pc <;> first | rfl | cases hpc
  refine h.quiet ⟨hlocal.queueCount,hbarriers,hcounter,hgoal,hreleased,?_,?_,?_,?_,?_⟩
  · intro j hj
    exact (hbegun j hj).imp_right fun hepoch => ⟨i,hi,hs,hepoch⟩
  · intro k hk e he
    by_cases hki : k = i
    · rw [hki] at he ⊢
      exact hline e he
    · rw [hlocal.line_ne hki]
      exact he
  · intro k
    by_cases hki : k = i
    · rw [hki,hs,ht]
    · rw [hlocal.worker k hki]
  · intro k
    by_cases hki : k = i
    · rw [hki,hnone hs,hnone ht]
    · rw [hlocal.worker k hki]
  · intro k hk x hx
    by_cases hki : k = i
    · rw [hki] at hx ⊢
      exact hway x hx
    · rw [hlocal.worker k hki] at hx
      exact h.running k hk x hx

/-- When worker `i` begins its next barrier, one fewer is behind that one. -/
theorem behind_begin {s t : State X R} {i : ℕ} (hcount : t.queueCount = s.queueCount) (hi : i < s.queueCount)
    (hother : ∀ k ≠ i, passed t k = passed s k) (hself : passed t i = passed s i+1) (b : ℕ) :
    behind t b+(if b = passed s i then 1 else 0) = behind s b := by
  have hmem : i ∈ Finset.range s.queueCount := Finset.mem_range.mpr hi
  have hrest : ∑ k ∈ (Finset.range s.queueCount).erase i, (if passed t k ≤ b then 1 else 0) =
      ∑ k ∈ (Finset.range s.queueCount).erase i, if passed s k ≤ b then 1 else 0 :=
    Finset.sum_congr rfl fun k hk => by rw [hother k (Finset.ne_of_mem_erase hk)]
  rw [behind,behind,hcount,← Finset.sum_erase_add _ _ hmem,← Finset.sum_erase_add _ _ hmem,hrest,hself]
  split_ifs <;> omega

/-- From `s` to `t` worker `i` begins barrier `b`, the next one in its line. -/
structure BeginsBarrier (i b : ℕ) (batch : List (Item X)) (s t : State X R) : Prop where
  queue : i < s.queueCount
  others : Local i s t
  front : s.worker i = .looping (.barrier b :: batch)
  worker : t.worker i = if s.counter b+1 = s.goal b then .releasing b batch else .waiting b batch
  barriers : t.barriers = s.barriers
  goal : t.goal = s.goal
  released : t.released = s.released
  begun : t.begun = s.begun
  counter : t.counter = Function.update s.counter b (s.counter b+1)
  next : b = passed s i
  follows : Follows (passed s i+1) (line t i) s.barriers

namespace BeginsBarrier

variable {s t : State X R} {i b : ℕ} {batch : List (Item X)} (hb : BeginsBarrier i b batch s t)
include hb

theorem passed_self : passed t i = passed s i+1 := passed_eq (by rw [hb.barriers]; exact hb.follows)

theorem passed_ne {k : ℕ} (hk : k ≠ i) : passed t k = passed s k := by
  rw [passed,passed,hb.others.line_ne hk,hb.barriers]

theorem lt_barriers : b < s.barriers := by
  have hlength := hb.follows.length
  have hnext := hb.next
  omega

theorem behind_self : behind t b+1 = behind s b := by
  have hbehind := behind_begin hb.others.queueCount hb.queue (fun k hk => hb.passed_ne hk) hb.passed_self b
  rwa [if_pos hb.next] at hbehind

theorem behind_ne {c : ℕ} (hc : c ≠ b) : behind t c = behind s c := by
  have hbehind := behind_begin hb.others.queueCount hb.queue (fun k hk => hb.passed_ne hk) hb.passed_self c
  rwa [if_neg (hb.next ▸ hc),Nat.add_zero] at hbehind

theorem counter_self : t.counter b = s.counter b+1 := by rw [hb.counter,Function.update_self]

theorem counter_ne {c : ℕ} (hc : c ≠ b) : t.counter c = s.counter c := by rw [hb.counter,Function.update_of_ne hc]

theorem inBarrier : (t.worker i).inBarrier = some b := by
  rw [hb.worker]
  split <;> rfl

/-- Nobody has released a barrier that worker `i` is still in front of. -/
theorem ne_of_full (h : BarrierInv s) {c : ℕ} (hc : s.counter c = s.goal c) : c ≠ b := by
  rintro rfl
  have hcounted := h.counted c hb.lt_barriers
  have hbehind := hb.behind_self
  omega

theorem counted (h : BarrierInv s) {c : ℕ} (hc : c < s.barriers) : t.counter c+behind t c = s.goal c := by
  have hold := h.counted c hc
  by_cases hcb : c = b
  · subst hcb
    have hbehind := hb.behind_self
    rw [hb.counter_self]
    omega
  · rw [hb.counter_ne hcb,hb.behind_ne hcb]
    exact hold

/-- The last one to begin the barrier releases it. -/
theorem complete (h : BarrierInv s) {c : ℕ} (hc : c < s.barriers) (hfull : t.counter c = s.goal c) :
    s.released c = true ∨ ∃ k, (t.worker k).releases = some c := by
  by_cases hcb : c = b
  · subst hcb
    rw [hb.counter_self] at hfull
    exact Or.inr ⟨i,by rw [hb.worker,if_pos hfull]; rfl⟩
  · rw [hb.counter_ne hcb] at hfull
    refine (h.complete c hc hfull).imp_right ?_
    rintro ⟨k,hk⟩
    have hki : k ≠ i := by
      rintro rfl
      rw [hb.front] at hk
      cases hk
    exact ⟨k,by rw [hb.others.worker k hki]; exact hk⟩

theorem releasing (h : BarrierInv s) {k c : ℕ} (hk : (t.worker k).releases = some c) :
    c < s.barriers ∧ t.counter c = s.goal c := by
  by_cases hki : k = i
  · have hc : c = b := by
      have hin := WorkerPc.releases_inBarrier hk
      rw [hki,hb.inBarrier] at hin
      exact (Option.some.inj hin).symm
    rw [hki,hb.worker] at hk
    split at hk
    case isTrue hgoal =>
      rw [hc]
      exact ⟨hb.lt_barriers,hb.counter_self.trans hgoal⟩
    case isFalse => cases hk
  · rw [hb.others.worker k hki] at hk
    obtain ⟨hlt,hfull⟩ := h.releasing k c hk
    exact ⟨hlt,(hb.counter_ne (hb.ne_of_full h hfull)).trans hfull⟩

theorem inside (h : BarrierInv s) {k : ℕ} (hk : k < s.queueCount) {c : ℕ} (hc : (t.worker k).inBarrier = some c) :
    passed t k = c+1 := by
  by_cases hki : k = i
  · rw [hki,hb.inBarrier,Option.some.injEq] at hc
    rw [hki,hb.passed_self,← hc,← hb.next]
  · rw [hb.others.worker k hki] at hc
    rw [hb.passed_ne hki]
    exact h.inside k hk c hc

theorem through (h : BarrierInv s) {k : ℕ} (hk : k < s.queueCount) {c : ℕ} (hc : c < passed t k) :
    s.released c = true ∨ (t.worker k).inBarrier = some c := by
  by_cases hki : k = i
  · rw [hki,hb.passed_self] at hc
    rw [hki,hb.inBarrier]
    rcases Nat.lt_succ_iff_lt_or_eq.mp hc with hc | rfl
    · refine Or.inl ((h.through i hb.queue c hc).resolve_right ?_)
      rw [hb.front]
      exact nofun
    · exact Or.inr (congrArg some hb.next)
  · rw [hb.passed_ne hki] at hc
    rw [hb.others.worker k hki]
    exact h.through k hk c hc

theorem running (h : BarrierInv s) {k : ℕ} (hk : k < s.queueCount) {x : Job X × List (Call X) × Option R}
    (hx : (t.worker k).underWay = some x) : x.1.epoch = passed t k := by
  by_cases hki : k = i
  · rw [hki,hb.worker] at hx
    split at hx <;> cases hx
  · rw [hb.others.worker k hki] at hx
    rw [hb.passed_ne hki]
    exact h.running k hk x hx

end BeginsBarrier

/-- The one that begins a barrier is counted, and is then inside it. -/
theorem BarrierInv.begins {s t : State X R} (h : BarrierInv s) {i b : ℕ} {batch : List (Item X)}
    (hb : BeginsBarrier i b batch s t) : BarrierInv t := by
  constructor <;> simp only [hb.others.queueCount,hb.barriers,hb.goal,hb.released,hb.begun]
  case follows =>
    intro k hk
    by_cases hki : k = i
    · rw [hki,hb.passed_self]
      exact hb.follows
    · rw [hb.passed_ne hki,hb.others.line_ne hki]
      exact h.follows k hk
  case counted => exact fun c hc => hb.counted h hc
  case fresh =>
    intro c hc
    rw [hb.counter_ne (hb.lt_barriers.trans_le hc).ne']
    exact h.fresh c hc
  case complete => exact fun c hc hfull => hb.complete h hc hfull
  case released =>
    intro c hc
    obtain ⟨hlt,hfull⟩ := h.released c hc
    exact ⟨hlt,(hb.counter_ne (hb.ne_of_full h hfull)).trans hfull⟩
  case releasing => exact fun k c hk => hb.releasing h hk
  case inside => exact fun k hk c hc => hb.inside h hk hc
  case through => exact fun k hk c hc => hb.through h hk hc
  case running => exact fun k hk x hx => hb.running h hk hx
  case begun => exact h.begun

theorem BarrierInv.begins_beginItem {s t : State X R} (h : BarrierInv s) {i b : ℕ} {batch : List (Item X)}
    (hpc : s.worker i = .looping (.barrier b :: batch)) (hi : i < s.queueCount)
    (ht : t = beginItem s i batch (.barrier b)) (hlocal : Local i s t) : BeginsBarrier i b batch s t := by
  have hfollows := h.follows i hi
  rw [line_beginItem hpc (by simp),← ht] at hfollows
  obtain ⟨hnext,hrest⟩ := hfollows
  have hworker : t.worker i = if s.counter b+1 = s.goal b then .releasing b batch else .waiting b batch := by
    rw [ht]
    exact Function.update_self _ _ _
  refine ⟨hi,hlocal,hpc,hworker,?_,?_,?_,?_,?_,hnext,hrest⟩ <;> rw [ht] <;> rfl

/-- A worker leaves a barrier that everyone has begun. -/
theorem BarrierInv.leave {s t : State X R} (h : BarrierInv s) {i b : ℕ} {batch : List (Item X)} (hlocal : Local i s t)
    (hi : i < s.queueCount) (hin : (s.worker i).inBarrier = some b) (hpc : t.worker i = .looping batch)
    (hkeep : line t = line s)
    (hsame : t.barriers = s.barriers ∧ t.counter = s.counter ∧ t.goal = s.goal ∧ t.begun = s.begun)
    (hreleased : t.released = Function.update s.released b true) (hfull : b < s.barriers ∧ s.counter b = s.goal b) :
    BarrierInv t := by
  have hcount := hlocal.queueCount
  obtain ⟨hbarriers,hcounter,hgoal,hbegun⟩ := hsame
  have hpassed (k : ℕ) : passed t k = passed s k := by rw [passed,passed,hkeep,hbarriers]
  have hbehind := behind_congr hcount fun k _ => hpassed k
  have hmore {c : ℕ} (hc : s.released c = true) : t.released c = true := by
    rw [hreleased]
    by_cases hcb : c = b
    · rw [hcb,Function.update_self]
    · rw [Function.update_of_ne hcb]
      exact hc
  have hb : t.released b = true := by rw [hreleased,Function.update_self]
  constructor <;> simp only [hcount,hbarriers,hcounter,hgoal,hbegun,hpassed,hbehind,hkeep]
  case follows => exact h.follows
  case counted => exact h.counted
  case fresh => exact h.fresh
  case complete =>
    intro c hc hfull
    by_cases hcb : c = b
    · exact Or.inl (hcb ▸ hb)
    · rcases h.complete c hc hfull with hdone | ⟨k,hk⟩
      · exact Or.inl (hmore hdone)
      · have hki : k ≠ i := by
          rintro rfl
          rw [WorkerPc.releases_inBarrier hk] at hin
          exact hcb (Option.some.inj hin)
        exact Or.inr ⟨k,by rw [hlocal.worker k hki]; exact hk⟩
  case released =>
    intro c hc
    by_cases hcb : c = b
    · rw [hcb]
      exact hfull
    · rw [hreleased,Function.update_of_ne hcb] at hc
      exact h.released c hc
  case releasing =>
    intro k c hk
    by_cases hki : k = i
    · rw [hki,hpc] at hk
      cases hk
    · rw [hlocal.worker k hki] at hk
      exact h.releasing k c hk
  case inside =>
    intro k hk c hc
    by_cases hki : k = i
    · rw [hki,hpc] at hc
      cases hc
    · rw [hlocal.worker k hki] at hc
      exact h.inside k hk c hc
  case through =>
    intro k hk c hc
    rcases h.through k hk c hc with hdone | hinside
    · exact Or.inl (hmore hdone)
    · by_cases hki : k = i
      · rw [hki,hin] at hinside
        exact Or.inl (Option.some.inj hinside ▸ hb)
      · rw [hlocal.worker k hki]
        exact Or.inr hinside
  case running =>
    intro k hk x hx
    by_cases hki : k = i
    · rw [hki,hpc] at hx
      cases hx
    · rw [hlocal.worker k hki] at hx
      exact h.running k hk x hx
  case begun =>
    intro j hj c hc
    exact hmore (h.begun j hj c hc)

/-- A step that takes nothing off a line. -/
theorem BarrierInv.keep {s t : State X R} {a : Action X R} {i : ℕ} (h : BarrierInv s) (hpool : PoolInv s)
    (hmove : Move s a t) (ha : a.worker? = some i) (hkeep : Keeps i s t) : BarrierInv t := by
  have hlocal := hmove.local ha
  have hi := hpool.started hlocal.started
  have hline (e : ℕ) (he : Follows e (line s i) s.barriers) : Follows e (line t i) s.barriers := by
    rw [hkeep.line]
    exact he
  have hbegun (j : Job X) (hj : j ∈ t.begun) : j ∈ s.begun ∨ j.epoch = passed s i := Or.inl (hkeep.begun ▸ hj)
  have hrunning := h.running i hi
  cases hmove <;> cases ha
  case sleep hpc hempty =>
    refine h.of_local hlocal hi ⟨rfl,rfl,rfl,rfl⟩ hbegun hline ?_ ?_ ?_
    · rcases hpc with hpc | hpc <;> rw [hpc] <;> rfl
    · simp [State.setWorker,WorkerPc.inBarrier]
    · simp [State.setWorker,WorkerPc.underWay]
  case fetch hpc hne =>
    refine h.of_local hlocal hi ⟨rfl,rfl,rfl,rfl⟩ hbegun hline ?_ ?_ ?_
    · rcases hpc with hpc | hpc <;> rw [hpc] <;> rfl
    · simp [State.setWorker,WorkerPc.inBarrier]
    · simp [State.setWorker,WorkerPc.underWay]
  case refetch hpc =>
    exact h.of_local hlocal hi ⟨rfl,rfl,rfl,rfl⟩ hbegun hline (by rw [hpc]; rfl)
      (by simp [State.setWorker,WorkerPc.inBarrier]) (by simp [State.setWorker,WorkerPc.underWay])
  case beginJob hpc => exact absurd hpc (hkeep.ahead _ _)
  case beginBarrier hpc => exact absurd hpc (hkeep.ahead _ _)
  case exit hpc => exact absurd hpc (hkeep.ahead _ _)
  case finish hpc =>
    exact h.of_local hlocal hi ⟨rfl,rfl,rfl,rfl⟩ hbegun hline (by rw [hpc]; rfl)
      (by simp [finishJob,State.setWorker,WorkerPc.inBarrier]) (by simp [finishJob,State.setWorker,WorkerPc.underWay])
  case release hpc =>
    exact h.leave hlocal hi (by rw [hpc]; rfl) (Function.update_self _ _ _) hkeep.line ⟨rfl,rfl,rfl,rfl⟩ rfl
      (h.releasing i _ (by rw [hpc]; rfl))
  case pass hreleased hpc =>
    refine h.leave hlocal hi (by rw [hpc]; rfl) (Function.update_self _ _ _) hkeep.line ⟨rfl,rfl,rfl,rfl⟩ ?_
      (h.released _ hreleased)
    rw [← hreleased,Function.update_eq_self]
    rfl
  case call r j c left old batch hpc =>
    refine h.of_local hlocal hi ⟨rfl,rfl,rfl,rfl⟩ hbegun hline (by rw [hpc]; rfl)
      (by simp [State.setWorker,WorkerPc.inBarrier]) fun x hx => ?_
    simp only [State.setWorker,Function.update_self,WorkerPc.underWay,Option.some.injEq] at hx
    rw [← hx]
    exact hrunning (j,c :: left,old) (by rw [hpc]; rfl)
  case spurious hpc =>
    exact h.of_local hlocal hi ⟨rfl,rfl,rfl,rfl⟩ hbegun hline (by rw [hpc]; rfl)
      (by simp [State.setWorker,WorkerPc.inBarrier]) (by simp [State.setWorker,WorkerPc.underWay])

theorem BarrierInv.worker {s t : State X R} {a : Action X R} {i : ℕ} (h : BarrierInv s) (hpool : PoolInv s)
    (hmove : Move s a t) (ha : a.worker? = some i) : BarrierInv t := by
  have hlocal := hmove.local ha
  have hi := hpool.started hlocal.started
  rcases hmove.line_worker ha with hkeep | ⟨item,rest,hpc,ht⟩
  · exact h.keep hpool hmove ha hkeep
  · have hin : (s.worker i).inBarrier = none := by rw [hpc]; rfl
    cases item with
    | job j =>
      have hline := line_beginItem hpc (by simp)
      rw [← ht] at hline
      have hepoch := h.follows i hi
      rw [hline] at hepoch
      have hself : t.worker i = .running j j.calls none rest := by
        rw [ht]
        exact Function.update_self _ _ _
      refine h.of_local hlocal hi ?_ ?_ ?_ hin (by rw [hself]; rfl) ?_
      · rw [ht]
        exact ⟨rfl,rfl,rfl,rfl⟩
      · intro j' hj'
        rw [ht] at hj'
        refine (List.mem_append.mp hj').imp_right fun hj' => ?_
        rw [List.mem_singleton.mp hj']
        exact hepoch.1
      · intro e he
        rw [hline] at he
        exact he.2
      · intro x hx
        rw [hself] at hx
        cases hx
        exact hepoch.1
    | barrier b => exact h.begins (h.begins_beginItem hpc hi ht hlocal)
    | poison =>
      obtain ⟨-,rfl,hqueue,hpending⟩ := hpool.exit hpc
      have hself : t.worker i = .returned := by
        rw [ht]
        exact Function.update_self _ _ _
      refine h.of_local hlocal hi ?_ (fun j hj => Or.inl ?_) ?_ hin (by rw [hself]; rfl) (by rw [hself]; exact nofun)
      · rw [ht]
        exact ⟨rfl,rfl,rfl,rfl⟩
      · rw [ht] at hj
        exact hj
      · intro e he
        rw [line_looping hpc,hqueue,hpending] at he
        have hline : line t i = [] := by
          rw [ht]
          simp [line,beginItem,State.setWorker,WorkerPc.batch,hqueue,hpending]
        rw [hline]
        exact he

theorem Follows.poison {e e' : ℕ} {items : List (Item X)} (h : Follows e items e') : Follows e (items ++ [.poison]) e' :=
  have hpoison : Follows e' ([.poison] : List (Item X)) e' := rfl
  h.append hpoison

theorem BarrierInv.passive {s t : State X R} (h : BarrierInv s) (hp : Passive s t) : BarrierInv t := by
  have hworker (i : ℕ) : (t.worker i).inBarrier = (s.worker i).inBarrier ∧ (t.worker i).releases = (s.worker i).releases ∧
      (t.worker i).underWay = (s.worker i).underWay := by
    rcases hp.worker i with hpc | hpc | ⟨hpc,hpc'⟩
    · rw [hpc]
      exact ⟨rfl,rfl,rfl⟩
    · rw [hpc]
      cases s.worker i <;> exact ⟨rfl,rfl,rfl⟩
    · rw [hpc,hpc']
      exact ⟨rfl,rfl,rfl⟩
  refine h.quiet ⟨hp.queueCount,hp.barriers,hp.counter,hp.goal,hp.released,fun j hj => Or.inl (hp.begun ▸ hj),?_,
    fun i => (hworker i).1,fun i => (hworker i).2.1,fun i hi x hx => ?_⟩
  · intro i hi e he
    rcases hp.line i hi with hline | hline <;> rw [hline]
    · exact he
    · exact he.poison
  · rw [(hworker i).2.2] at hx
    exact h.running i hi x hx

theorem BarrierInv.submitBarrier {s : State X R} (h : BarrierInv s) (hpool : PoolInv s) (hpc : s.submitter = .idle)
    (hrun : s.running = true) {r : (List (Put X) × ℕ) × List (Call X) × ℕ} (hplan : plan s .submitBarrier = some r) :
    BarrierInv (s.accept .submitBarrier r) := by
  have hcount := hpool.running hrun
  have hline (i : ℕ) (hi : i < s.queueCount) : Follows (passed s i) (line (s.accept .submitBarrier r) i) (s.barriers+1) := by
    have hcopy : itemsFor i r.1.1 = [.barrier s.barriers] := by
      cases hplan
      rw [itemsFor_eq,submitBarrier_covers hpool.pointer _ (hcount ▸ hi)]
      rfl
    rw [line_accept hpc,hcopy]
    exact (h.follows i hi).append ⟨rfl,rfl⟩
  have hpassed (i : ℕ) (hi : i < s.queueCount) : passed (s.accept .submitBarrier r) i = passed s i := passed_eq (hline i hi)
  have hle (i : ℕ) (hi : i < s.queueCount) : passed s i ≤ s.barriers := by
    have hlength := (h.follows i hi).length
    omega
  have hbehind := behind_congr (s := s) (t := s.accept .submitBarrier r) rfl hpassed
  have hnew : behind s s.barriers = s.queueCount := by
    have hone : ∀ i ∈ Finset.range s.queueCount, (if passed s i ≤ s.barriers then 1 else 0) = 1 := fun i hi =>
      if_pos (hle i (Finset.mem_range.mp hi))
    rw [behind,Finset.sum_congr rfl hone]
    simp
  have hgoal : (s.accept .submitBarrier r).goal = Function.update s.goal s.barriers s.threadCount := rfl
  have hgoal_ne {b : ℕ} (hb : b < s.barriers) : (s.accept .submitBarrier r).goal b = s.goal b := by
    rw [hgoal,Function.update_of_ne hb.ne]
  constructor
  case follows =>
    intro i hi
    rw [hpassed i hi]
    exact hline i hi
  case counted =>
    intro b hb
    rw [hbehind]
    rcases Nat.lt_succ_iff_lt_or_eq.mp hb with hb | rfl
    · rw [hgoal_ne hb]
      exact h.counted b hb
    · rw [hnew,hgoal,Function.update_self]
      change s.counter s.barriers+_ = _
      rw [h.fresh s.barriers le_rfl,hcount,Nat.zero_add]
  case fresh => exact fun b hb => h.fresh b ((Nat.le_succ _).trans hb)
  case complete =>
    intro b hb hfull
    rcases Nat.lt_succ_iff_lt_or_eq.mp hb with hb | rfl
    · rw [hgoal_ne hb] at hfull
      exact h.complete b hb hfull
    · have hzero := h.fresh s.barriers le_rfl
      have hpointer := hpool.pointer
      rw [hgoal,Function.update_self] at hfull
      change s.counter s.barriers = _ at hfull
      omega
  case released =>
    intro b hb
    obtain ⟨hlt,hfull⟩ := h.released b hb
    exact ⟨hlt.trans (Nat.lt_succ_self _),by rw [hgoal_ne hlt]; exact hfull⟩
  case releasing =>
    intro i b hb
    obtain ⟨hlt,hfull⟩ := h.releasing i b hb
    exact ⟨hlt.trans (Nat.lt_succ_self _),by rw [hgoal_ne hlt]; exact hfull⟩
  case inside =>
    intro i hi b hb
    rw [hpassed i hi]
    exact h.inside i hi b hb
  case through =>
    intro i hi b hb
    rw [hpassed i hi] at hb
    exact h.through i hi b hb
  case running =>
    intro i hi x hx
    rw [hpassed i hi]
    exact h.running i hi x hx
  case begun => exact h.begun

theorem BarrierInv.accept {s : State X R} (h : BarrierInv s) (hpool : PoolInv s) {q : Request X}
    {r : (List (Put X) × ℕ) × List (Call X) × ℕ} (hpc : s.submitter = .idle) (hrun : s.running = true)
    (hplan : plan s q = some r) : BarrierInv (s.accept q r) := by
  by_cases hq : q = .submitBarrier
  · subst hq
    exact h.submitBarrier hpool hpc hrun hplan
  · have hjobs (i : ℕ) : ∀ item ∈ itemsFor i r.1.1, ∃ j, item = .job j ∧ j.epoch = s.barriers := by
      intro item hitem
      have hmem := mem_itemsFor hitem
      rw [(plan_spec hpool.pointer (hpool.running hrun) hplan).items] at hmem
      exact (Request.items_kind hmem).resolve_right fun hb => hq hb.1
    have hbarriers : (s.accept q r).barriers = s.barriers := by cases q <;> first | rfl | exact absurd rfl hq
    have hgoal : (s.accept q r).goal = s.goal := by cases q <;> first | rfl | exact absurd rfl hq
    refine h.quiet ⟨rfl,hbarriers,rfl,hgoal,rfl,fun _ hj => Or.inl hj,fun i _ e he => ?_,fun _ => rfl,fun _ => rfl,h.running⟩
    rw [line_accept hpc]
    exact he.append (Follows.of_jobs (hjobs i))

/-- With the lines empty, all barriers submitted so far are behind everyone. -/
theorem BarrierInv.emptied {s t : State X R} (h : BarrierInv s) (he : Emptied s t) : BarrierInv t := by
  have hempty (i : ℕ) (hi : i < s.queueCount) : passed s i = s.barriers := by simp [passed,he.drained i hi]
  have hpassed (i : ℕ) : passed t i = s.barriers := by simp [passed,he.line i,he.barriers]
  have hfull (b : ℕ) (hb : b < s.barriers) : s.counter b = s.goal b := by
    have hnone : behind s b = 0 := Finset.sum_eq_zero fun i hi => by
      rw [hempty i (Finset.mem_range.mp hi),if_neg (by omega)]
    rw [← h.counted b hb,hnone,Nat.add_zero]
  have hnot (i b : ℕ) : (s.worker i).releases ≠ some b := by
    rcases he.gone i with hpc | hpc <;> rw [hpc] <;> exact nofun
  have hreleased (b : ℕ) (hb : b < s.barriers) : s.released b = true :=
    (h.complete b hb (hfull b hb)).resolve_right fun ⟨i,hi⟩ => hnot i b hi
  constructor <;> simp only [he.barriers,he.counter,he.goal,he.released,he.begun,he.worker,hpassed]
  case follows =>
    intro i _
    rw [he.line i]
    rfl
  case counted =>
    intro b hb
    have hnone : behind t b = 0 := Finset.sum_eq_zero fun i _ => by rw [hpassed i,if_neg (by omega)]
    rw [hnone,Nat.add_zero,hfull b hb]
  case fresh => exact h.fresh
  case complete => exact fun b hb _ => Or.inl (hreleased b hb)
  case released => exact h.released
  case releasing => exact nofun
  case inside => exact nofun
  case through => exact fun _ _ b hb => Or.inl (hreleased b hb)
  case running => exact nofun
  case begun => exact h.begun

theorem BarrierInv.step {s t : State X R} {a : Action X R} (h : BarrierInv s) (hpool : PoolInv s) (hmove : Move s a t) :
    BarrierInv t := by
  rcases hmove.effect hpool with ⟨i,hi⟩ | ⟨q,r,rfl,hpc,hrun,hplan,rfl⟩ | ⟨-,hpassive | hemptied⟩
  · exact h.worker hpool hmove hi
  · exact h.accept hpool hpc hrun hplan
  · exact h.passive hpassive
  · exact h.emptied hemptied

end ThreadPool
end AudioOutput
