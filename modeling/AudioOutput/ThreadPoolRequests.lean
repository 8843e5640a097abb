import AudioOutput.ThreadPool

/-!
# What a request puts into the queues

Every request puts its items into live queues, in order and each of them once; only
a range whose length is lost in the conversion to `int` is dropped.
-/

namespace AudioOutput
namespace ThreadPool

universe u
variable {X R : Type u}

theorem flatten_slices (xs : List X) (n k : ℕ) :
    ((List.range n).map fun i => Buffer.slice xs (i*k) k).flatten = xs.take (n*k) := by
  induction n with
  | zero => simp
  | succ n ih =>
    rw [List.range_succ,List.map_append,List.flatten_append,ih,Nat.succ_mul,List.take_add]
    simp [Buffer.slice]

/-- Up to 2^31-1 elements an `int` has the length of the range. -/
theorem rangeSize_eq {length : ℕ} (h : length < 2^31) : rangeSize length = length :=
  Int.bmod_eq_of_le (by omega) (by omega)

/-- The queue operations `r` put exactly the given items into the first `n` queues,
and leave a pointer to one of these. -/
structure Plan (n : ℕ) (items : List (Item X)) (r : List (Put X) × ℕ) : Prop where
  index : ∀ p ∈ r.1, p.index < n
  items : r.1.flatMap Put.items = items
  pointer : r.2 < n

theorem submitJobRange_plan {n pointer : ℕ} (h : pointer < n) (items : List (Item X)) :
    Plan n items (submitJobRange n pointer items) := by
  induction items generalizing pointer with
  | nil => exact ⟨by simp [submitJobRange],rfl,h⟩
  | cons item rest ih =>
    have hnext : (pointer+1)%n < n := Nat.mod_lt _ (by omega)
    obtain ⟨hindex,hitems,hpointer⟩ := ih hnext
    refine ⟨?_,?_,hpointer⟩
    · intro p hp
      rcases List.mem_append.mp hp with hp | hp
      · rw [List.mem_singleton.mp hp]
        exact h
      · exact hindex p hp
    · simp only [submitJobRange,submitJob,List.flatMap_append,hitems]
      simp [Put.items]

theorem submitJobRange_append {n pointer : ℕ} (h : pointer < n) (as bs : List (Item X)) :
    (submitJobRange n pointer (as ++ bs)).1 =
      (submitJobRange n pointer as).1 ++ (submitJobRange n ((pointer+as.length)%n) bs).1 := by
  induction as generalizing pointer with
  | nil => simp [submitJobRange,Nat.mod_eq_of_lt h]
  | cons a as ih =>
    have hnext : (pointer+1)%n < n := Nat.mod_lt _ (by omega)
    have hlast : ((pointer+1)%n+as.length)%n = (pointer+(a :: as).length)%n := by
      rw [Nat.mod_add_mod,List.length_cons]
      congr 1
      omega
    simp only [List.cons_append,submitJobRange,submitJob,ih hnext,hlast,List.append_assoc]

/-- What two jobs of a range put into the queues, with the pointer where each of them finds it. -/
theorem submitJobRange_pair {n pointer : ℕ} (h : pointer < n) (as bs cs : List (Item X)) (a b : Item X) :
    (submitJobRange n pointer (as ++ a :: (bs ++ b :: cs))).1 =
      (submitJobRange n pointer as).1 ++ .enqueue ((pointer+as.length)%n) a ::
        ((submitJobRange n ((pointer+as.length+1)%n) bs).1 ++ .enqueue ((pointer+as.length+1+bs.length)%n) b ::
          (submitJobRange n ((pointer+as.length+1+bs.length+1)%n) cs).1) := by
  have hmod (k : ℕ) : k%n < n := Nat.mod_lt _ (by omega)
  have hcons (k : ℕ) (item : Item X) (rest : List (Item X)) : (submitJobRange n (k%n) (item :: rest)).1 =
      .enqueue (k%n) item :: (submitJobRange n ((k+1)%n) rest).1 := by
    rw [← Nat.mod_add_mod k n 1]
    rfl
  rw [submitJobRange_append h,hcons,submitJobRange_append (hmod _),Nat.mod_add_mod,hcons]

theorem mem_submitJobRange {n pointer : ℕ} {items : List (Item X)} {p : Put X} (hp : p ∈ (submitJobRange n pointer items).1) :
    ∃ i, ∃ item ∈ items, p = .enqueue i item := by
  induction items generalizing pointer with
  | nil => cases hp
  | cons item rest ih =>
    rcases List.mem_cons.mp hp with rfl | hp
    · exact ⟨pointer,item,List.mem_cons_self,rfl⟩
    · obtain ⟨i,item',hitem,rfl⟩ := ih hp
      exact ⟨i,item',List.mem_cons_of_mem _ hitem,rfl⟩

theorem submitJobToAllThreads_plan {n pointer : ℕ} (h : pointer < n) (item : Item X) :
    Plan n (List.replicate n item) (submitJobToAllThreads n pointer item) := by
  refine ⟨?_,?_,h⟩
  · simp [submitJobToAllThreads,Put.index]
  · rw [submitJobToAllThreads,List.flatMap_map]
    simp [Put.items,List.flatMap_def,List.map_const']

/-- The items of a range that `submitJobRangeUnordered` does submit. -/
def keptRange (items : List (Item X)) : List (Item X) := if rangeSize items.length = 0 then [] else items

theorem submitJobRangeUnordered_plan {n pointer : ℕ} {items : List (Item X)} {r : List (Put X) × ℕ} (h : pointer < n)
    (hr : submitJobRangeUnordered n pointer items = some r) : Plan n (keptRange items) r := by
  unfold submitJobRangeUnordered at hr
  unfold keptRange
  split at hr
  · next hzero =>
    cases hr
    rw [if_pos hzero]
    exact ⟨by simp,rfl,h⟩
  · next hzero =>
    obtain ⟨k,hk,rfl⟩ := Option.map_eq_some_iff.mp hr
    obtain ⟨hindex,hitems,hpointer⟩ := submitJobRange_plan h (items.drop (n*k))
    rw [if_neg hzero]
    refine ⟨?_,?_,hpointer⟩
    · intro p hp
      rcases List.mem_append.mp hp with hp | hp
      · obtain ⟨i,-,rfl⟩ := List.mem_map.mp hp
        exact Nat.mod_lt _ (by omega)
      · exact hindex p hp
    · have hspread : ((List.range n).map fun i => Put.enqueueRange ((pointer+i)%n) (Buffer.slice items (i*k) k)).flatMap
          Put.items = items.take (n*k) := by
        rw [List.flatMap_map,← flatten_slices,List.flatMap_def]
        rfl
      rw [List.flatMap_append,hspread,hitems,List.take_append_drop]

theorem flatten_subranges {n : ℕ} {xs : List X} {rs : List (List X)} (h : subranges n xs = some rs) : rs.flatten = xs := by
  simp only [subranges,Option.map_eq_some_iff] at h
  obtain ⟨k,-,rfl⟩ := h
  rw [List.flatten_append,flatten_slices]
  cases hrest : xs.drop (n*k) with
  | nil =>
    have hall := List.take_append_drop (n*k) xs
    simpa [hrest] using hall
  | cons x rest =>
    have hall := List.take_append_drop (n*k) xs
    simpa [hrest] using hall

def Request.items (s : State X R) : Request X → List (Item X)
  | .submitJob x => [plain s.barriers x]
  | .submitJobWithResult x => packagedTasks s.barriers s.promises [.single x]
  | .submitJobRange xs => xs.map (plain s.barriers)
  | .submitJobRangeUnordered xs => keptRange (xs.map (plain s.barriers))
  | .map xs => packagedTasks s.barriers s.promises (((subranges s.threadCount xs).getD []).map .subrange)
  | .submitJobToAllThreads x => List.replicate s.queueCount (plain s.barriers x)
  | .submitBarrier => List.replicate s.threadCount (.barrier s.barriers)

theorem plan_spec {s : State X R} {q : Request X} {r : (List (Put X) × ℕ) × List (Call X) × ℕ}
    (hpointer : s.jobQueuePointer < s.threadCount) (hcount : s.queueCount = s.threadCount) (h : plan s q = some r) :
    Plan s.threadCount (q.items s) r.1 := by
  cases q with
  | submitJob x =>
    cases h
    exact submitJobRange_plan hpointer [plain s.barriers x]
  | submitJobWithResult x =>
    cases h
    exact submitJobRange_plan hpointer (packagedTasks s.barriers s.promises [.single x])
  | submitJobRange xs =>
    cases h
    exact submitJobRange_plan hpointer (xs.map (plain s.barriers))
  | submitJobRangeUnordered xs =>
    simp only [plan,Option.map_eq_some_iff] at h
    obtain ⟨p,hp,rfl⟩ := h
    exact submitJobRangeUnordered_plan hpointer hp
  | map xs =>
    simp only [plan,Option.map_eq_some_iff] at h
    obtain ⟨rs,hrs,rfl⟩ := h
    simp only [Request.items,hrs,Option.getD_some]
    exact submitJobRange_plan hpointer _
  | submitJobToAllThreads x =>
    cases h
    simp only [Request.items,hcount]
    exact submitJobToAllThreads_plan hpointer _
  | submitBarrier =>
    cases h
    exact submitJobRange_plan hpointer (List.replicate s.threadCount (.barrier s.barriers))

def Item.calls (item : Item X) : List (Call X) := item.job?.elim [] Job.calls

def Item.promise? (item : Item X) : Option ℕ := item.job?.bind Job.promise

theorem calls_plain (epoch : ℕ) (xs : List X) : (xs.map (plain epoch)).flatMap Item.calls = xs.map (·,none) := by
  induction xs with
  | nil => rfl
  | cons x xs ih =>
    rw [List.map_cons,List.flatMap_cons,ih]
    rfl

theorem calls_subranges (epoch promise : ℕ) (rs : List (List X)) :
    (packagedTasks epoch promise (rs.map .subrange)).flatMap Item.calls = rs.flatten.map (·,none) := by
  induction rs generalizing promise with
  | nil => rfl
  | cons xs rs ih =>
    simp only [List.map_cons,packagedTasks,List.flatMap_cons,ih,List.flatten_cons,List.map_append]
    rfl

theorem promises_packagedTasks (epoch promise : ℕ) (cs : List (Callable X)) :
    (packagedTasks epoch promise cs).filterMap Item.promise? = List.range' promise cs.length := by
  induction cs generalizing promise with
  | nil => rfl
  | cons c cs ih =>
    simp only [packagedTasks,List.filterMap_cons,Item.promise?,Item.job?,Option.bind_some,List.length_cons,
      List.range'_succ,ih]

/-- The length of the range, as an `int`, is not 0 unless the range is empty, and dealt out
among `n` threads it is not negative. -/
def Request.Kept (n : ℕ) : Request X → Prop
  | .submitJobRangeUnordered xs => (rangeSize xs.length = 0 → xs = []) ∧ 0 ≤ (rangeSize xs.length).tdiv n
  | .map xs => 0 ≤ (rangeSize xs.length).tdiv n
  | _ => True

def Request.Short : Request X → Prop
  | .submitJobRangeUnordered xs | .map xs => xs.length < 2^31
  | _ => True

theorem Request.Short.kept {q : Request X} (h : q.Short) (n : ℕ) : q.Kept n := by
  have hdealt {xs : List X} (hlt : xs.length < 2^31) : 0 ≤ (rangeSize xs.length).tdiv n := by
    rw [rangeSize_eq hlt]
    exact Int.tdiv_nonneg (Int.natCast_nonneg _) (Int.natCast_nonneg _)
  cases q with
  | submitJobRangeUnordered xs =>
    refine ⟨fun hzero => ?_,hdealt h⟩
    rw [rangeSize_eq h] at hzero
    exact List.length_eq_zero_iff.mp (by omega)
  | map xs => exact hdealt h
  | _ => trivial

theorem perThread_eq_none {n length : ℕ} : perThread n length = none ↔ (rangeSize length).tdiv n < 0 := by
  simp [perThread]

theorem perThread_nonneg {n length k : ℕ} (h : perThread n length = some k) : 0 ≤ (rangeSize length).tdiv n := by
  by_contra hneg
  rw [perThread_eq_none.mpr (not_le.mp hneg)] at h
  cases h

/-- Only ranges dealt out in negative parts have no plan. -/
theorem not_kept_of_plan {s : State X R} {q : Request X} (h : plan s q = none) : ¬ q.Kept s.threadCount := by
  cases q with
  | submitJobRangeUnordered xs =>
    rintro ⟨-,hdealt⟩
    simp only [plan,submitJobRangeUnordered,List.length_map,Option.map_eq_none_iff] at h
    split at h
    case isTrue => cases h
    case isFalse =>
      rw [Option.map_eq_none_iff,perThread_eq_none] at h
      omega
  | map xs =>
    intro hdealt
    simp only [plan,subranges,Option.map_eq_none_iff,perThread_eq_none] at h
    have hdealt' : 0 ≤ (rangeSize xs.length).tdiv s.threadCount := hdealt
    omega
  | _ => cases h

/-- What is called for is put into the queues, unless a range is taken for empty. -/
theorem plan_calls {s : State X R} {q : Request X} {r : (List (Put X) × ℕ) × List (Call X) × ℕ} (h : plan s q = some r) :
    (q.items s).flatMap Item.calls = r.2.1 ∧ q.Kept s.threadCount ∨
      (q.items s).flatMap Item.calls = [] ∧ r.2.1 ≠ [] ∧ ¬ q.Kept s.threadCount := by
  cases q with
  | submitJob x => cases h; exact Or.inl ⟨rfl,trivial⟩
  | submitJobWithResult x => cases h; exact Or.inl ⟨rfl,trivial⟩
  | submitJobRange xs => cases h; exact Or.inl ⟨calls_plain s.barriers xs,trivial⟩
  | submitJobRangeUnordered xs =>
    simp only [plan,Option.map_eq_some_iff] at h
    obtain ⟨p,hp,rfl⟩ := h
    by_cases hzero : rangeSize xs.length = 0
    · have hdealt : 0 ≤ (rangeSize xs.length).tdiv s.threadCount := by simp [hzero]
      have hitems : (Request.submitJobRangeUnordered xs).items s = [] := by simp [Request.items,keptRange,hzero]
      by_cases hnil : xs = []
      · exact Or.inl ⟨by rw [hitems,hnil]; rfl,fun _ => hnil,hdealt⟩
      · exact Or.inr ⟨by rw [hitems]; rfl,by simpa using hnil,fun hkept => hnil (hkept.1 hzero)⟩
    · have hitems : (Request.submitJobRangeUnordered xs).items s = xs.map (plain s.barriers) := by
        simp [Request.items,keptRange,hzero]
      have hdealt : 0 ≤ (rangeSize xs.length).tdiv s.threadCount := by
        rw [submitJobRangeUnordered,List.length_map,if_neg hzero] at hp
        obtain ⟨k,hk,-⟩ := Option.map_eq_some_iff.mp hp
        exact perThread_nonneg hk
      exact Or.inl ⟨by rw [hitems,calls_plain],fun h => absurd h hzero,hdealt⟩
  | map xs =>
    simp only [plan,Option.map_eq_some_iff] at h
    obtain ⟨rs,hrs,rfl⟩ := h
    obtain ⟨k,hk,-⟩ := Option.map_eq_some_iff.mp hrs
    refine Or.inl ⟨?_,perThread_nonneg hk⟩
    simp only [Request.items,hrs,Option.getD_some,calls_subranges,flatten_subranges hrs]
  | submitJobToAllThreads x =>
    cases h
    refine Or.inl ⟨?_,trivial⟩
    have hone := calls_plain s.barriers (List.replicate s.queueCount x)
    simpa [Request.items] using hone
  | submitBarrier =>
    cases h
    exact Or.inl ⟨by simp [Request.items,Item.calls,Item.job?],trivial⟩

/-- Promises are numbered consecutively, and each goes with one item. -/
theorem plan_promises {s : State X R} {q : Request X} {r : (List (Put X) × ℕ) × List (Call X) × ℕ}
    (h : plan s q = some r) : (q.items s).filterMap Item.promise? = List.range' s.promises r.2.2 := by
  have hplain (xs : List X) : (xs.map (plain s.barriers)).filterMap Item.promise? = [] := by
    simp [plain,Item.promise?,Item.job?]
  cases q with
  | submitJob x => cases h; rfl
  | submitJobWithResult x => cases h; rfl
  | submitJobRange xs => cases h; exact hplain xs
  | submitJobRangeUnordered xs =>
    simp only [plan,Option.map_eq_some_iff] at h
    obtain ⟨p,-,rfl⟩ := h
    simp only [Request.items,keptRange]
    split
    · rfl
    · exact hplain xs
  | map xs =>
    simp only [plan,Option.map_eq_some_iff] at h
    obtain ⟨rs,hrs,rfl⟩ := h
    simp only [Request.items,hrs,Option.getD_some,promises_packagedTasks,List.length_map]
  | submitJobToAllThreads x =>
    cases h
    simp [Request.items,plain,Item.promise?,Item.job?]
  | submitBarrier =>
    cases h
    simp [Request.items,Item.promise?,Item.job?]

/-- The jobs of a request come after all barriers submitted before it. -/
theorem Request.items_kind {s : State X R} {q : Request X} {item : Item X} (h : item ∈ q.items s) :
    (∃ j, item = .job j ∧ j.epoch = s.barriers) ∨ (q = .submitBarrier ∧ item = .barrier s.barriers) := by
  have hplain (xs : List X) (h : item ∈ xs.map (plain s.barriers)) : ∃ j, item = .job j ∧ j.epoch = s.barriers := by
    obtain ⟨x,-,rfl⟩ := List.mem_map.mp h
    exact ⟨_,rfl,rfl⟩
  have htasks (promise : ℕ) (cs : List (Callable X)) (h : item ∈ packagedTasks s.barriers promise cs) :
      ∃ j, item = .job j ∧ j.epoch = s.barriers := by
    induction cs generalizing promise with
    | nil => cases h
    | cons c cs ih =>
      rcases List.mem_cons.mp h with rfl | h
      · exact ⟨_,rfl,rfl⟩
      · exact ih _ h
  cases q with
  | submitJob x => exact Or.inl (hplain [x] h)
  | submitJobWithResult x => exact Or.inl (htasks _ _ h)
  | submitJobRange xs => exact Or.inl (hplain xs h)
  | submitJobRangeUnordered xs =>
    simp only [Request.items,keptRange] at h
    split at h
    · cases h
    · exact Or.inl (hplain xs h)
  | map xs => exact Or.inl (htasks _ _ h)
  | submitJobToAllThreads x =>
    rw [List.eq_of_mem_replicate h]
    exact Or.inl ⟨_,rfl,rfl⟩
  | submitBarrier => exact Or.inr ⟨rfl,List.eq_of_mem_replicate h⟩

end ThreadPool
end AudioOutput
