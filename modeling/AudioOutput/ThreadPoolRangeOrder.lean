import AudioOutput.ThreadPoolJobs
import Mathlib.Data.List.Duplicate

/-!
# The order in which jobs begin

A worker begins the jobs of its line from the front, so two jobs of a range that go
into one queue begin in the order in which they were submitted. Nothing orders the
workers: a job in another queue can begin before any of its predecessors does.
-/

namespace AudioOutput
namespace ThreadPool

open Transition
open ThreadsafeQueue (Queue)

universe u
variable {X R : Type u}

def Job.single? (j : Job X) : Option X :=
  match j.callable with
  | .single x => some x
  | .subrange _ => none

def Item.single? (item : Item X) : Option X := item.job?.bind Job.single?

def singles (items : List (Item X)) : List X := items.filterMap Item.single?

def State.started (s : State X R) : List X := s.begun.filterMap Job.single?

def State.asked (s : State X R) : List X := s.submitted.map Prod.fst

@[simp] theorem singles_nil : singles ([] : List (Item X)) = [] := rfl

@[simp] theorem singles_cons (item : Item X) (items : List (Item X)) :
    singles (item :: items) = item.single?.toList ++ singles items := by
  cases h : item.single? <;> simp [singles,h]

@[simp] theorem singles_append (as bs : List (Item X)) : singles (as ++ bs) = singles as ++ singles bs :=
  List.filterMap_append

@[simp] theorem single?_poison : (Item.poison : Item X).single? = none := rfl

@[simp] theorem singles_plain (epoch : ℕ) (xs : List X) : singles (xs.map (plain epoch)) = xs := by
  induction xs with
  | nil => rfl
  | cons x xs ih =>
    rw [List.map_cons,singles_cons,ih]
    rfl

theorem mem_calls_of_mem_singles {x : X} {items : List (Item X)} (h : x ∈ singles items) :
    x ∈ (items.flatMap Item.calls).map Prod.fst := by
  obtain ⟨item,hitem,hx⟩ := List.mem_filterMap.mp h
  obtain ⟨j,hjob,hsingle⟩ := Option.bind_eq_some_iff.mp hx
  have hcall : x ∈ item.calls.map Prod.fst := by
    rw [Item.calls,hjob]
    unfold Job.single? at hsingle
    split at hsingle
    · next hcallable =>
      cases hsingle
      simp [Job.calls,hcallable]
    · cases hsingle
  obtain ⟨c,hc,rfl⟩ := List.mem_map.mp hcall
  exact List.mem_map_of_mem (List.mem_flatMap.mpr ⟨item,hitem,hc⟩)

theorem asked_of_items {s : State X R} {q : Request X} {r : (List (Put X) × ℕ) × List (Call X) × ℕ} (hplan : plan s q = some r)
    {x : X} (hx : x ∈ singles (q.items s)) : x ∈ r.2.1.map Prod.fst := by
  have hcalls := mem_calls_of_mem_singles hx
  rcases plan_calls hplan with ⟨heq,-⟩ | ⟨heq,-⟩
  · rwa [heq] at hcalls
  · rw [heq] at hcalls
    cases hcalls

inductive Begins (s t : State X R) : Prop
  | quiet (hcount : t.queueCount = s.queueCount) (hasked : t.asked = s.asked) (hstarted : t.started = s.started)
      (hline : ∀ i < s.queueCount, singles (line t i) = singles (line s i))
  | job (k : ℕ) (x : X) (hk : k < s.queueCount) (hcount : t.queueCount = s.queueCount) (hasked : t.asked = s.asked)
      (hstarted : t.started = s.started ++ [x]) (hfirst : singles (line s k) = x :: singles (line t k))
      (hline : ∀ i ≠ k, line t i = line s i)
  | request (new : List X) (puts : List (Put X)) (hcount : t.queueCount = s.queueCount) (hasked : t.asked = s.asked ++ new)
      (hstarted : t.started = s.started) (hline : ∀ i, singles (line t i) = singles (line s i) ++ singles (itemsFor i puts))
      (hnew : ∀ i, singles (itemsFor i puts) ⊆ new)
  | emptied (hasked : t.asked = s.asked) (hstarted : t.started = s.started)
      (hdrained : ∀ i < s.queueCount, line s i = []) (hline : ∀ i, line t i = [])

theorem singles_subset {items items' : List (Item X)} (h : ∀ item ∈ items, item ∈ items') : singles items ⊆ singles items' := by
  intro x hx
  obtain ⟨item,hitem,hsingle⟩ := List.mem_filterMap.mp hx
  exact List.mem_filterMap.mpr ⟨item,h item hitem,hsingle⟩

/-- An item that a worker takes off its line begins, unless it is a barrier or the poison. -/
theorem Begins.beginItem {s : State X R} {i : ℕ} {item : Item X} {rest : List (Item X)} (h : PoolInv s)
    (hlocal : Local i s (beginItem s i rest item)) (hpc : s.worker i = .looping (item :: rest)) :
    Begins s (beginItem s i rest item) := by
  have hi : i < s.queueCount := h.started hlocal.started
  have hother (k : ℕ) (hk : k ≠ i) : line (ThreadPool.beginItem s i rest item) k = line s k := hlocal.line_ne hk
  cases item with
  | job j =>
    have hline := line_beginItem hpc (by simp)
    cases hsingle : j.single? with
    | none =>
      refine .quiet rfl rfl (by simp [ThreadPool.beginItem,State.started,hsingle]) fun k hk => ?_
      by_cases hki : k = i
      · rw [hki,hline,singles_cons]
        simp [Item.single?,Item.job?,hsingle]
      · rw [hother k hki]
    | some x =>
      refine .job i x hi rfl rfl (by simp [ThreadPool.beginItem,State.started,hsingle]) ?_ hother
      rw [hline,singles_cons]
      simp [Item.single?,Item.job?,hsingle]
  | barrier b =>
    have hline := line_beginItem hpc (by simp)
    refine .quiet rfl rfl rfl fun k hk => ?_
    by_cases hki : k = i
    · rw [hki,hline,singles_cons]
      rfl
    · rw [hother k hki]
  | poison =>
    obtain ⟨-,rfl,hqueue,hpending⟩ := h.exit hpc
    refine .quiet rfl rfl rfl fun k hk => ?_
    by_cases hki : k = i
    · rw [hki,line_looping hpc,hqueue,hpending]
      simp [line,ThreadPool.beginItem,State.setWorker,WorkerPc.batch,hqueue,hpending]
    · rw [hother k hki]

theorem Move.begins {s t : State X R} {a : Action X R} (h : PoolInv s) (hmove : Move s a t) : Begins s t := by
  rcases hmove.effect h with ⟨i,hi⟩ | ⟨q,r,rfl,hpc,hrun,hplan,rfl⟩ | ⟨-,hpassive | hemptied⟩
  · have hlocal := hmove.local hi
    rcases hmove.line_worker hi with hkeep | ⟨item,rest,hpc,rfl⟩
    · have hasked : t.asked = s.asked := by
        cases hmove <;> first | rfl | cases hi
      exact .quiet hlocal.queueCount hasked (by rw [State.started,hkeep.begun,State.started]) fun k _ => by rw [hkeep.line]
    · exact .beginItem h hlocal hpc
  · have hspec := plan_spec h.pointer (h.running hrun) hplan
    refine .request (r.2.1.map Prod.fst) r.1.1 rfl List.map_append rfl (fun i => ?_) fun i x hx => ?_
    · rw [line_accept hpc,singles_append]
    · refine asked_of_items hplan (singles_subset (fun item hitem => ?_) hx)
      rw [← hspec.items]
      exact mem_itemsFor hitem
  · refine .quiet hpassive.queueCount (by rw [State.asked,hpassive.submitted,State.asked])
      (by rw [State.started,hpassive.begun,State.started]) fun i hi => ?_
    rcases hpassive.line i hi with hline | hline
    · rw [hline]
    · rw [hline]
      simp
  · exact .emptied (by rw [State.asked,hemptied.submitted,State.asked]) (by rw [State.started,hemptied.begun,State.started])
      hemptied.drained hemptied.line

theorem Begins.started_subset {s t : State X R} (h : Begins s t) : s.started ⊆ t.started := by
  cases h with
  | quiet hcount hasked hstarted hline => rw [hstarted]; exact List.Subset.refl _
  | job k x hk hcount hasked hstarted hfirst hline => rw [hstarted]; exact List.subset_append_left _ _
  | request new puts hcount hasked hstarted hline hnew => rw [hstarted]; exact List.Subset.refl _
  | emptied hasked hstarted hdrained hline => rw [hstarted]; exact List.Subset.refl _

theorem Begins.asked_sublist {s t : State X R} (h : Begins s t) : s.asked.Sublist t.asked := by
  cases h with
  | quiet hcount hasked hstarted hline => rw [hasked]
  | job k x hk hcount hasked hstarted hfirst hline => rw [hasked]
  | request new puts hcount hasked hstarted hline hnew => rw [hasked]; exact List.sublist_append_left _ _
  | emptied hasked hstarted hdrained hline => rw [hasked]

structure Known (s : State X R) : Prop where
  lines : ∀ i < s.queueCount, singles (line s i) ⊆ s.asked
  started : s.started ⊆ s.asked

theorem Known.step {s t : State X R} (h : Known s) (hstep : Begins s t) : Known t := by
  cases hstep with
  | quiet hcount hasked hstarted hline =>
    refine ⟨fun i hi => ?_,by rw [hstarted,hasked]; exact h.started⟩
    rw [hcount] at hi
    rw [hline i hi,hasked]
    exact h.lines i hi
  | job k x hk hcount hasked hstarted hfirst hline =>
    have hown := h.lines k hk
    rw [hfirst,List.cons_subset] at hown
    constructor
    · intro i hi
      rw [hcount] at hi
      rw [hasked]
      by_cases hik : i = k
      · rw [hik]
        exact hown.2
      · rw [hline i hik]
        exact h.lines i hi
    · rw [hstarted,hasked]
      exact List.append_subset.mpr ⟨h.started,List.cons_subset.mpr ⟨hown.1,List.nil_subset _⟩⟩
  | request new puts hcount hasked hstarted hline hnew =>
    constructor
    · intro i hi
      rw [hcount] at hi
      rw [hline,hasked]
      exact List.append_subset.mpr ⟨List.subset_append_of_subset_left _ (h.lines i hi),
        List.subset_append_of_subset_right _ (hnew i)⟩
    · rw [hstarted,hasked]
      exact List.subset_append_of_subset_left _ h.started
  | emptied hasked hstarted hdrained hline =>
    refine ⟨fun i hi => ?_,by rw [hstarted,hasked]; exact h.started⟩
    rw [hline]
    exact List.nil_subset _

theorem Reachable.known {n : ℕ} (hn : 0 < n) {s : State X R} (h : Reachable n s) : Known s := by
  have hinv : PoolInv s ∧ Known s := by
    refine Reaches.invariant (I := fun u => PoolInv u ∧ Known u) h ⟨initial_poolInv hn,nofun,List.nil_subset _⟩ ?_
    rintro u a v - ⟨hpool,hknown⟩ hstep
    exact ⟨hpool.step hstep,hknown.step ((Move.of_step hstep).begins hpool)⟩
  exact hinv.2

/-- `x` stands in line `k`, and `y` is nowhere before it and in no other line. -/
structure Queued (x y : X) (k : ℕ) (s : State X R) : Prop where
  lt : k < s.queueCount
  ahead : ∃ before after, singles (line s k) = before ++ x :: after ∧ y ∉ before
  elsewhere : ∀ i < s.queueCount, i ≠ k → y ∉ singles (line s i)
  waits : y ∉ s.started

theorem duplicate_append {x : X} {as bs : List X} (h : x ∈ as) (h' : x ∈ bs) : (as ++ bs).Duplicate x :=
  List.duplicate_iff_sublist.mpr ((List.singleton_sublist.mpr h).append (List.singleton_sublist.mpr h'))

section
variable {x y z : X} {k l : ℕ} {s t : State X R}

theorem Queued.begin_own (h : Queued x y k s) (hcount : t.queueCount = s.queueCount) (hstarted : t.started = s.started ++ [z])
    (hfirst : singles (line s k) = z :: singles (line t k)) (hline : ∀ i ≠ k, line t i = line s i) :
    x ∈ t.started ∨ Queued x y k t := by
  obtain ⟨before,after,hahead,hbefore⟩ := h.ahead
  rw [hahead] at hfirst
  cases before with
  | nil =>
    rw [← (List.cons.inj hfirst).1] at hstarted
    exact Or.inl (by rw [hstarted]; exact List.mem_append_right _ List.mem_cons_self)
  | cons first before =>
    obtain ⟨rfl,hrest⟩ := List.cons.inj hfirst
    obtain ⟨hne,hbefore'⟩ := not_or.mp (fun hor => hbefore (List.mem_cons.mpr hor))
    refine Or.inr ⟨hcount ▸ h.lt,⟨before,after,hrest.symm,hbefore'⟩,fun i hi hik => ?_,?_⟩
    · rw [hcount] at hi
      rw [hline i hik]
      exact h.elsewhere i hi hik
    · rw [hstarted,List.mem_append,List.mem_singleton]
      exact not_or.mpr ⟨h.waits,hne⟩

theorem Queued.begin_other (h : Queued x y k s) (hl : l < s.queueCount) (hlk : l ≠ k) (hcount : t.queueCount = s.queueCount)
    (hstarted : t.started = s.started ++ [z]) (hfirst : singles (line s l) = z :: singles (line t l))
    (hline : ∀ i ≠ l, line t i = line s i) : Queued x y k t := by
  obtain ⟨before,after,hahead,hbefore⟩ := h.ahead
  have hne := h.elsewhere l hl hlk
  rw [hfirst,List.mem_cons,not_or] at hne
  refine ⟨hcount ▸ h.lt,⟨before,after,?_,hbefore⟩,fun i hi hik => ?_,?_⟩
  · rw [hline k (Ne.symm hlk),hahead]
  · rw [hcount] at hi
    by_cases hil : i = l
    · rw [hil]
      exact hne.2
    · rw [hline i hil]
      exact h.elsewhere i hi hik
  · rw [hstarted,List.mem_append,List.mem_singleton]
    exact not_or.mpr ⟨h.waits,hne.1⟩

theorem Queued.step (h : Queued x y k s) (hstep : Begins s t) (hy : y ∈ s.asked) (honce : ¬ t.asked.Duplicate y) :
    x ∈ t.started ∨ Queued x y k t := by
  obtain ⟨before,after,hahead,hbefore⟩ := h.ahead
  cases hstep with
  | quiet hcount hasked hstarted hline =>
    refine Or.inr ⟨hcount ▸ h.lt,⟨before,after,?_,hbefore⟩,fun i hi hik => ?_,by rw [hstarted]; exact h.waits⟩
    · rw [hline k h.lt,hahead]
    · rw [hcount] at hi
      rw [hline i hi]
      exact h.elsewhere i hi hik
  | job l z hl hcount hasked hstarted hfirst hline =>
    by_cases hlk : l = k
    · subst hlk
      exact h.begin_own hcount hstarted hfirst hline
    · exact Or.inr (h.begin_other hl hlk hcount hstarted hfirst hline)
  | request new puts hcount hasked hstarted hline hnew =>
    have hfree : y ∉ new := fun hmem => honce (by rw [hasked]; exact duplicate_append hy hmem)
    refine Or.inr ⟨hcount ▸ h.lt,⟨before,after ++ singles (itemsFor k puts),?_,hbefore⟩,fun i hi hik => ?_,
      by rw [hstarted]; exact h.waits⟩
    · rw [hline,hahead,List.append_assoc,List.cons_append]
    · rw [hcount] at hi
      rw [hline,List.mem_append]
      exact not_or.mpr ⟨h.elsewhere i hi hik,fun hmem => hfree (hnew i hmem)⟩
  | emptied hasked hstarted hdrained hline =>
    rw [hdrained k h.lt,singles_nil] at hahead
    exact absurd hahead.symm (by simp)

end

/-- Of two jobs in one line the first is the first to begin, whatever is submitted later. -/
theorem Queued.begins_first {x y : X} {k : ℕ} {s t : State X R} (h : Queued x y k s) (hpool : PoolInv s) (hy : y ∈ s.asked)
    (hreach : Reaches ThreadPool.step (fun _ => True) s t) (honce : ¬ t.asked.Duplicate y) (hstarted : y ∈ t.started) :
    x ∈ t.started := by
  have hinv : PoolInv t ∧ y ∈ t.asked ∧ (¬ t.asked.Duplicate y → x ∈ t.started ∨ Queued x y k t) := by
    refine Reaches.invariant (I := fun v => PoolInv v ∧ y ∈ v.asked ∧ (¬ v.asked.Duplicate y → x ∈ v.started ∨ Queued x y k v))
      hreach ⟨hpool,hy,fun _ => Or.inr h⟩ ?_
    rintro u a v - ⟨hu,hasked,hpair⟩ hstep
    have hbegins := (Move.of_step hstep).begins hu
    refine ⟨hu.step hstep,hbegins.asked_sublist.subset hasked,fun honce => ?_⟩
    rcases hpair fun hdup => honce (hdup.mono_sublist hbegins.asked_sublist) with hx | hqueued
    · exact Or.inl (hbegins.started_subset hx)
    · exact hqueued.step hbegins hasked honce
  exact (hinv.2.2 honce).resolve_right fun hqueued => hqueued.waits hstarted

theorem itemsFor_append (i : ℕ) (ps qs : List (Put X)) : itemsFor i (ps ++ qs) = itemsFor i ps ++ itemsFor i qs :=
  List.flatMap_append

theorem itemsFor_enqueue (i k : ℕ) (item : Item X) (puts : List (Put X)) :
    itemsFor i (.enqueue k item :: puts) = (if k = i then [item] else []) ++ itemsFor i puts :=
  itemsFor_cons i (.enqueue k item) puts

theorem singles_itemsFor_subset (n pointer epoch i : ℕ) (xs : List X) :
    singles (itemsFor i (submitJobRange n pointer (xs.map (plain epoch))).1) ⊆ xs := by
  intro x hx
  have hitem : x ∈ singles (xs.map (plain epoch)) := by
    refine singles_subset (fun item hitem => ?_) hx
    obtain ⟨p,hp,hmem⟩ := List.mem_flatMap.mp (mem_itemsFor hitem)
    obtain ⟨k,item',hitem',rfl⟩ := mem_submitJobRange hp
    rwa [List.mem_singleton.mp hmem]
  rwa [singles_plain] at hitem

theorem same_queue_iff (n a b : ℕ) : (a+1+b)%n = a%n ↔ n ∣ b+1 := by
  calc
    (a+1+b)%n = a%n ↔ a ≡ a+(b+1) [MOD n] := by rw [Nat.ModEq,eq_comm,Nat.add_right_comm,Nat.add_assoc]
    _ ↔ n ∣ b+1 := by rw [Nat.modEq_iff_dvd' (Nat.le_add_right _ _),Nat.add_sub_cancel_left]

theorem singles_range {n pointer : ℕ} (h : pointer < n) (epoch i : ℕ) (as bs cs : List X) (x y : X) (hdvd : n ∣ bs.length+1) :
    ∃ as' bs' cs', as' ⊆ as ∧ bs' ⊆ bs ∧ cs' ⊆ cs ∧
      singles (itemsFor i (submitJobRange n pointer ((as ++ x :: (bs ++ y :: cs)).map (plain epoch))).1) =
        as' ++ ((if (pointer+as.length)%n = i then [x] else []) ++ (bs' ++ ((if (pointer+as.length)%n = i then [y] else []) ++ cs'))) := by
  have hsame := (same_queue_iff n (pointer+as.length) bs.length).mpr hdvd
  have hputs := submitJobRange_pair h (as.map (plain epoch)) (bs.map (plain epoch)) (cs.map (plain epoch)) (plain epoch x)
    (plain epoch y)
  have hone (z : X) : singles (if (pointer+as.length)%n = i then [plain epoch z] else []) =
      if (pointer+as.length)%n = i then [z] else [] := by
    split <;> rfl
  simp only [List.length_map,hsame] at hputs
  refine ⟨_,_,_,singles_itemsFor_subset n pointer epoch i as,singles_itemsFor_subset n ((pointer+as.length+1)%n) epoch i bs,
    singles_itemsFor_subset n ((pointer+as.length+1+bs.length+1)%n) epoch i cs,?_⟩
  simp only [List.map_append,List.map_cons,hputs,itemsFor_append,itemsFor_enqueue,singles_append,hone]

theorem asked_of_range {s t : State X R} {xs : List X} (hstep : step s (.request (.submitJobRange xs)) = some t) :
    t.asked = s.asked ++ xs := by
  cases Move.of_step hstep with
  | request hpc hrun hplan =>
    cases hplan
    simp [State.asked,State.accept,Function.comp_def]

/-- A range that puts two jobs into one queue leaves them there in order. -/
theorem Queued.of_range {s t : State X R} (hpool : PoolInv s) (hknown : Known s) {as bs cs : List X} {x y : X}
    (hstep : ThreadPool.step s (.request (.submitJobRange (as ++ x :: (bs ++ y :: cs)))) = some t)
    (hdvd : s.threadCount ∣ bs.length+1) (honce : ¬ t.asked.Duplicate y) : y ∈ t.asked ∧ ∃ k, Queued x y k t := by
  rw [asked_of_range hstep,show as ++ x :: (bs ++ y :: cs) = (as ++ x :: bs) ++ y :: cs by simp,← List.append_assoc] at honce ⊢
  have hbefore : y ∉ s.asked ++ (as ++ x :: bs) := fun hmem => honce (duplicate_append hmem List.mem_cons_self)
  have hafter : y ∉ cs := fun hmem =>
    honce ((List.duplicate_cons_self_iff.mpr hmem).mono_sublist (List.sublist_append_right _ _))
  simp only [List.mem_append,List.mem_cons,not_or] at hbefore
  obtain ⟨hold,has,-,hbs⟩ := hbefore
  cases Move.of_step hstep with
  | request hpc hrun hplan =>
    obtain ⟨k,hk⟩ : ∃ k, (s.jobQueuePointer+as.length)%s.threadCount = k := ⟨_,rfl⟩
    have hlt : k < s.queueCount := by
      rw [hpool.running hrun,← hk]
      exact Nat.mod_lt _ (Nat.zero_lt_of_lt hpool.pointer)
    cases hplan
    refine ⟨List.mem_append_right _ List.mem_cons_self,k,hlt,?_,fun i hi hik => ?_,fun hmem => hold (hknown.started hmem)⟩
    · obtain ⟨as',bs',cs',has',hbs',hcs',heq⟩ := singles_range hpool.pointer s.barriers k as bs cs x y hdvd
      refine ⟨singles (line s k) ++ as',bs' ++ y :: cs',?_,?_⟩
      · rw [line_accept hpc,singles_append,heq,if_pos hk,if_pos hk]
        simp
      · rw [List.mem_append,not_or]
        exact ⟨fun hmem => hold (hknown.lines k hlt hmem),fun hmem => has (has' hmem)⟩
    · have hne : (s.jobQueuePointer+as.length)%s.threadCount ≠ i := by rw [hk]; exact Ne.symm hik
      obtain ⟨as',bs',cs',has',hbs',hcs',heq⟩ := singles_range hpool.pointer s.barriers i as bs cs x y hdvd
      rw [line_accept hpc,singles_append,heq,if_neg hne,if_neg hne]
      simp only [List.nil_append,List.mem_append,not_or]
      exact ⟨fun hmem => hold (hknown.lines i hi hmem),fun hmem => has (has' hmem),fun hmem => hbs (hbs' hmem),
        fun hmem => hafter (hcs' hmem)⟩

/-- In every run in which a pool of `n` threads is given the range, with its jobs told apart
from all other calls, `x` has begun when `y` has. -/
def BeginsFirst (R : Type u) (n : ℕ) (xs : List X) (x y : X) : Prop :=
  ∀ (m : ℕ) (s t v : State X R), 0 < m → Reachable m s → s.threadCount = n →
    step s (.request (.submitJobRange xs)) = some t → Reaches step (fun _ => True) t v →
    (∀ z ∈ xs, ¬ v.asked.Duplicate z) → y ∈ v.started → x ∈ v.started

theorem BeginsFirst.of_dvd {n : ℕ} {as bs cs : List X} {x y : X} (h : n ∣ bs.length+1) :
    BeginsFirst R n (as ++ x :: (bs ++ y :: cs)) x y := by
  intro m s t v hm hreach hn hstep hlater honce hstarted
  have hpool := hreach.poolInv hm
  have hpool' := hpool.step hstep
  have hsublist : t.asked.Sublist v.asked := by
    have hinv := Reaches.invariant (I := fun w => PoolInv w ∧ t.asked.Sublist w.asked) hlater ⟨hpool',List.Sublist.refl _⟩ ?_
    · exact hinv.2
    · rintro w a w' - ⟨hw,hsub⟩ hw'
      exact ⟨hw.step hw',hsub.trans ((Move.of_step hw').begins hw).asked_sublist⟩
  have hy : ¬ v.asked.Duplicate y := honce y (by simp)
  obtain ⟨hasked,k,hqueued⟩ := Queued.of_range hpool (hreach.known hm) hstep (hn ▸ h) fun hdup => hy (hdup.mono_sublist hsublist)
  exact hqueued.begins_first hpool' hasked hlater hy hstarted

/-- A pool of `n` threads that have had nothing to do, `k` of them started. -/
structure Fresh (n k : ℕ) (s : State X R) : Prop where
  reachable : Reachable n s
  running : s.running = true
  threadCount : s.threadCount = n
  pointer : s.jobQueuePointer = 0
  workers : ∀ i < k, s.worker i = .fetching
  queues : ∀ i, (s.queue i).items = []
  submitted : s.submitted = []
  begun : s.begun = []

theorem exists_spawning {n k : ℕ} (hk : k ≤ n) : ∃ s : State X R, Fresh n k s ∧ s.submitter = .spawning k := by
  induction k with
  | zero =>
    have hrun : (run step (initial X R n) [.start,.submitter]).isSome := rfl
    exact ⟨_,⟨Reaches.of_run (fun _ _ => trivial) (Option.some_get hrun).symm,rfl,rfl,rfl,nofun,fun _ => rfl,rfl,rfl⟩,rfl⟩
  | succ k ih =>
    obtain ⟨s,h,hpc⟩ := ih (by omega)
    have hstep : step s .submitter = some { s with
        worker := Function.update s.worker k .fetching, threads := k+1, submitter := .spawning (k+1) } := by
      simp only [step,submitterThread,hpc,h.threadCount]
      rw [if_pos (by omega)]
    refine ⟨_,{ h with reachable := h.reachable.tail trivial hstep, workers := fun i hi => ?_ },rfl⟩
    show Function.update s.worker k .fetching i = .fetching
    by_cases hik : i = k
    · rw [hik,Function.update_self]
    · rw [Function.update_of_ne hik]
      exact h.workers i (by omega)

theorem exists_fresh (n : ℕ) : ∃ s : State X R, Fresh n n s ∧ s.submitter = .idle := by
  obtain ⟨s,h,hpc⟩ := exists_spawning (X := X) (R := R) (le_refl n)
  have hstep : step s .submitter = some { s with submitter := .idle } := by
    simp only [step,submitterThread,hpc,h.threadCount]
    rw [if_neg (lt_irrefl n)]
  exact ⟨_,{ h with reachable := h.reachable.tail trivial hstep },rfl⟩

structure At (w : ℕ) (pc : WorkerPc X R) (items : List (Item X)) (puts : List (Put X)) (begun asked : List X) (s : State X R) :
    Prop where
  worker : s.worker w = pc
  queue : (s.queue w).items = items
  submitter : s.submitter = .submitting puts
  started : s.started = begun
  asked : s.asked = asked

section
variable {w epoch : ℕ} {pc : WorkerPc X R} {items : List (Item X)} {puts : List (Put X)} {begun asked : List X} {s : State X R}

theorem At.put_other {i : ℕ} {item : Item X} (hi : i ≠ w) (h : At w pc items (.enqueue i item :: puts) begun asked s) :
    ∃ t, Reaches step (fun _ => True) s t ∧ At w pc items puts begun asked t := by
  have hstep : step s .submitter = some { (Put.enqueue i item).apply s with submitter := .submitting puts } := by
    simp only [step,submitterThread,h.submitter]
  refine ⟨_,Reaches.refl.tail trivial hstep,?_,?_,rfl,h.started,h.asked⟩
  · simp only [Put.apply,Function.update_of_ne (Ne.symm hi)]
    exact h.worker
  · simp only [Put.apply,Function.update_of_ne (Ne.symm hi)]
    exact h.queue

theorem At.put_own {item : Item X} (h : At w .fetching [] (.enqueue w item :: puts) begun asked s) :
    ∃ t, Reaches step (fun _ => True) s t ∧ At w .fetching [item] puts begun asked t := by
  have hstep : step s .submitter = some { (Put.enqueue w item).apply s with submitter := .submitting puts } := by
    simp only [step,submitterThread,h.submitter]
  refine ⟨_,Reaches.refl.tail trivial hstep,?_,?_,rfl,h.started,h.asked⟩
  · simp [Put.apply,h.worker,WorkerPc.notify]
  · simp [Put.apply,Queue.enqueue,h.queue]

theorem At.fetch {item : Item X} (h : At w .fetching [item] puts begun asked s) :
    ∃ t, Reaches step (fun _ => True) s t ∧ At w (.looping [item]) [] puts begun asked t := by
  have hstep : step s (.worker w) = some (ThreadPool.fetch s w) := by simp only [step,workerThread,h.worker]
  refine ⟨_,Reaches.refl.tail trivial hstep,?_⟩
  simp only [ThreadPool.fetch,h.queue]
  refine ⟨?_,?_,h.submitter,h.started,h.asked⟩
  · simp [State.setWorker,Queue.takeUpTo_fst,h.queue]
  · simp [Queue.takeUpTo_items,h.queue]

theorem At.begin {z : X} (h : At w (.looping [plain epoch z]) items puts begun asked s) : ∃ t, Reaches step (fun _ => True) s t ∧
    At w (.running ⟨.single z,none,epoch⟩ [(z,none)] none []) items puts (begun ++ [z]) asked t := by
  have hstep : step s (.worker w) = some (beginItem s w [] (plain epoch z)) := by simp only [step,workerThread,h.worker]
  refine ⟨_,Reaches.refl.tail trivial hstep,?_,h.queue,h.submitter,?_,h.asked⟩
  · simp [beginItem,plain,State.setWorker,Job.calls]
  · have hold := h.started
    rw [State.started] at hold
    simp [beginItem,plain,State.started,Job.single?,hold]

theorem At.call {z : X} (r : R) (h : At w (.running ⟨.single z,none,epoch⟩ [(z,none)] none []) items puts begun asked s) :
    ∃ t, Reaches step (fun _ => True) s t ∧
      At w (.running ⟨.single z,none,epoch⟩ [] (some r) []) items puts begun asked t := by
  have hstep : step s (.call w r) = some { s.setWorker w (.running ⟨.single z,none,epoch⟩ [] (some r) []) with
      executed := s.executed ++ [((z,none),r)] } := by
    simp only [step,callOnce,h.worker,Callable.result]
  exact ⟨_,Reaches.refl.tail trivial hstep,by simp [State.setWorker],h.queue,h.submitter,h.started,h.asked⟩

theorem At.finish {z : X} {r : R} (h : At w (.running ⟨.single z,none,epoch⟩ [] (some r) []) items puts begun asked s) :
    ∃ t, Reaches step (fun _ => True) s t ∧ At w (.looping []) items puts begun asked t := by
  have hstep : step s (.worker w) = some (finishJob s w ⟨.single z,none,epoch⟩ (some r) []) := by
    simp only [step,workerThread,h.worker]
  exact ⟨_,Reaches.refl.tail trivial hstep,by simp [finishJob,State.setWorker],h.queue,h.submitter,h.started,h.asked⟩

theorem At.refetch (h : At w (.looping []) items puts begun asked s) :
    ∃ t, Reaches step (fun _ => True) s t ∧ At w .fetching items puts begun asked t := by
  have hstep : step s (.worker w) = some (s.setWorker w .fetching) := by simp only [step,workerThread,h.worker]
  exact ⟨_,Reaches.refl.tail trivial hstep,by simp [State.setWorker],h.queue,h.submitter,h.started,h.asked⟩

theorem At.begin_own {z : X} (h : At w .fetching [] (.enqueue w (plain epoch z) :: puts) begun asked s) :
    ∃ t, Reaches step (fun _ => True) s t ∧
      At w (.running ⟨.single z,none,epoch⟩ [(z,none)] none []) [] puts (begun ++ [z]) asked t := by
  obtain ⟨s₁,hput,h₁⟩ := h.put_own
  obtain ⟨s₂,hfetch,h₂⟩ := h₁.fetch
  obtain ⟨s₃,hbegin,h₃⟩ := h₂.begin
  exact ⟨s₃,(hput.trans hfetch).trans hbegin,h₃⟩

/-- While a range is put into the queues one worker does its part and the others do nothing. -/
theorem At.serve [Nonempty R] {x : X} {rest : List (Put X)}
    (hputs : ∀ p ∈ puts, ∃ i z, p = .enqueue i (plain epoch z) ∧ (i = w → z ≠ x)) (hx : x ∉ begun)
    (h : At w .fetching [] (puts ++ rest) begun asked s) :
    ∃ t begun', Reaches step (fun _ => True) s t ∧ At w .fetching [] rest begun' asked t ∧ x ∉ begun' := by
  induction puts generalizing s begun with
  | nil => exact ⟨s,begun,.refl,h,hx⟩
  | cons p puts ih =>
    obtain ⟨⟨i,z,rfl,hz⟩,hputs'⟩ := List.forall_mem_cons.mp hputs
    by_cases hi : i = w
    · subst hi
      obtain ⟨r⟩ := ‹Nonempty R›
      obtain ⟨s₁,hbegin,h₁⟩ := h.begin_own
      obtain ⟨s₂,hcall,h₂⟩ := h₁.call r
      obtain ⟨s₃,hfinish,h₃⟩ := h₂.finish
      obtain ⟨s₄,hrefetch,h₄⟩ := h₃.refetch
      have hx' : x ∉ begun ++ [z] := by
        rw [List.mem_append,List.mem_singleton]
        exact not_or.mpr ⟨hx,Ne.symm (hz rfl)⟩
      obtain ⟨t,begun',hrest,ht,hfree⟩ := ih hputs' hx' h₄
      exact ⟨t,begun',(((hbegin.trans hcall).trans hfinish).trans hrefetch).trans hrest,ht,hfree⟩
    · obtain ⟨s₁,hput,h₁⟩ := h.put_other hi
      obtain ⟨t,begun',hrest,ht,hfree⟩ := ih hputs' hx h₁
      exact ⟨t,begun',hput.trans hrest,ht,hfree⟩

end

/-- The operations of a range that put `x` into another queue than `w`. -/
theorem range_elsewhere {n pointer epoch w : ℕ} {as bs : List X} {x : X} (has : x ∉ as) (hbs : x ∉ bs)
    (hne : (pointer+as.length)%n ≠ w) :
    ∀ p ∈ (submitJobRange n pointer (as.map (plain epoch))).1 ++ .enqueue ((pointer+as.length)%n) (plain epoch x) ::
      (submitJobRange n ((pointer+as.length+1)%n) (bs.map (plain epoch))).1,
      ∃ i z, p = .enqueue i (plain epoch z) ∧ (i = w → z ≠ x) := by
  have hpiece {k : ℕ} {zs : List X} (hzs : x ∉ zs) {p : Put X} (hp : p ∈ (submitJobRange n k (zs.map (plain epoch))).1) :
      ∃ i z, p = .enqueue i (plain epoch z) ∧ (i = w → z ≠ x) := by
    obtain ⟨i,item,hitem,rfl⟩ := mem_submitJobRange hp
    obtain ⟨z,hz,rfl⟩ := List.mem_map.mp hitem
    exact ⟨i,z,rfl,fun _ heq => hzs (heq ▸ hz)⟩
  intro p hp
  rcases List.mem_append.mp hp with hp | hp
  · exact hpiece has hp
  · rcases List.mem_cons.mp hp with rfl | hp
    · exact ⟨_,x,rfl,fun heq => absurd heq hne⟩
    · exact hpiece hbs hp

theorem At.of_range {n w : ℕ} {s t : State X R} {xs : List X} (hfresh : Fresh n n s) (hw : w < n)
    (hstep : step s (.request (.submitJobRange xs)) = some t) :
    At w .fetching [] (submitJobRange n 0 (xs.map (plain s.barriers))).1 [] xs t := by
  have hasked := asked_of_range hstep
  cases Move.of_step hstep with
  | request hpc hrun hplan =>
    cases hplan
    refine ⟨hfresh.workers w hw,hfresh.queues w,?_,?_,?_⟩
    · rw [← hfresh.threadCount,← hfresh.pointer]
      rfl
    · simp [State.started,State.accept,hfresh.begun]
    · rw [hasked,State.asked,hfresh.submitted]
      rfl

/-- Two jobs in different queues can begin in the other order. -/
theorem BeginsFirst.dvd [Nonempty R] {n : ℕ} (hn : 0 < n) {as bs cs : List X} {x y : X} (hnodup : (as ++ x :: (bs ++ y :: cs)).Nodup)
    (h : BeginsFirst R n (as ++ x :: (bs ++ y :: cs)) x y) : n ∣ bs.length+1 := by
  obtain ⟨has,hbs,hxy⟩ : x ∉ as ∧ x ∉ bs ∧ x ≠ y := by
    simp only [List.nodup_append,List.nodup_cons,List.mem_append,List.mem_cons,not_or] at hnodup
    exact ⟨fun hx => hnodup.2.2 x hx x (Or.inl rfl) rfl,hnodup.2.1.1.1,hnodup.2.1.1.2.1⟩
  by_contra hdvd
  have hne := mt (same_queue_iff n (0+as.length) bs.length).mp hdvd
  obtain ⟨s,hfresh,hidle⟩ := exists_fresh (X := X) (R := R) n
  obtain ⟨t,hstep⟩ : ∃ t, step s (.request (.submitJobRange (as ++ x :: (bs ++ y :: cs)))) = some t :=
    ⟨_,request_eq hidle hfresh.running rfl⟩
  have hat := At.of_range hfresh (Nat.mod_lt (0+as.length+1+bs.length) hn) hstep
  have hputs := submitJobRange_pair hn (as.map (plain s.barriers)) (bs.map (plain s.barriers)) (cs.map (plain s.barriers))
    (plain s.barriers x) (plain s.barriers y)
  simp only [List.length_map] at hputs
  rw [List.map_append,List.map_cons,List.map_append,List.map_cons,hputs,← List.cons_append,← List.append_assoc] at hat
  obtain ⟨u,begun,hserved,hu,hfree⟩ := hat.serve (range_elsewhere has hbs (Ne.symm hne)) List.not_mem_nil
  obtain ⟨v,hbegin,hv⟩ := hu.begin_own
  have hx := h n s t v hn hfresh.reachable hfresh.threadCount hstep (hserved.trans hbegin)
    (fun z _ hdup => hdup.not_nodup (by rw [hv.asked]; exact hnodup)) (by rw [hv.started]; simp)
  rw [hv.started,List.mem_append,List.mem_singleton] at hx
  exact hx.elim hfree hxy

theorem exists_split {xs : List X} {i j : ℕ} (hij : i < j) (hj : j < xs.length) :
    ∃ as bs cs, xs = as ++ xs[i] :: (bs ++ xs[j] :: cs) ∧ bs.length+1 = j-i := by
  refine ⟨xs.take i,(xs.drop (i+1)).take (j-(i+1)),xs.drop (j+1),?_,?_⟩
  · calc
      xs = xs.take i ++ xs[i] :: xs.drop (i+1) := by rw [← List.drop_eq_getElem_cons,List.take_append_drop]
      _ = xs.take i ++ xs[i] :: ((xs.drop (i+1)).take (j-(i+1)) ++ xs.drop j) := by
        rw [show xs.drop j = (xs.drop (i+1)).drop (j-(i+1)) by rw [List.drop_drop]; congr 1; omega,List.take_append_drop]
      _ = xs.take i ++ xs[i] :: ((xs.drop (i+1)).take (j-(i+1)) ++ xs[j] :: xs.drop (j+1)) := by
        rw [List.drop_eq_getElem_cons hj]
  · rw [List.length_take,List.length_drop]
    omega

/-- A job of a range begins before a later one in all runs if and only if the thread count
divides their distance. The jobs are told apart by their places in the range. -/
theorem begins_first_iff [Nonempty R] {n : ℕ} (hn : 0 < n) (xs : List X) {i j : ℕ} (hij : i < j) (hj : j < xs.length) :
    BeginsFirst R n xs.zipIdx (xs[i],i) (xs[j],j) ↔ n ∣ j-i := by
  have hlength : xs.zipIdx.length = xs.length := List.length_zipIdx
  have hi : xs.zipIdx[i] = (xs[i],i) := by simp
  have hj' : xs.zipIdx[j] = (xs[j],j) := by simp
  obtain ⟨as,bs,cs,hsplit,hbetween⟩ := exists_split hij (hj.trans_eq hlength.symm)
  rw [hi,hj'] at hsplit
  have hnodup : xs.zipIdx.Nodup := List.Nodup.of_map Prod.snd (by
    rw [List.zipIdx_map_snd]
    exact List.nodup_range')
  rw [hsplit] at hnodup ⊢
  rw [← hbetween]
  exact ⟨fun h => h.dvd hn hnodup,fun h => .of_dvd h⟩

theorem begins_first_iff_twoThreads : BeginsFirst ℕ 2 ([5,6,7] : List ℕ).zipIdx (5,0) (7,2) :=
  (begins_first_iff (i := 0) (j := 2) Nat.two_pos [5,6,7] (by decide) (by decide)).mpr (by decide)

def startTwo : List (Action (ℕ × ℕ) ℕ) := [.start,.submitter,.submitter,.submitter,.submitter]

/-- Two jobs are put into the queues, and the second thread is faster. -/
def secondFirst : List (Action (ℕ × ℕ) ℕ) := [.submitter,.submitter,.worker 1,.worker 1]

theorem range_out_of_order : ¬ BeginsFirst ℕ 2 ([7,8] : List ℕ).zipIdx (7,0) (8,1) := by
  intro h
  have hfacts : ((run step (initial (ℕ × ℕ) ℕ 2) startTwo).bind fun s =>
      (step s (.request (.submitJobRange [(7,0),(8,1)]))).bind fun t =>
        (run step t secondFirst).map fun v => (s.threadCount,v.asked,v.started)) = some (2,[(7,0),(8,1)],[(8,1)]) := rfl
  obtain ⟨s,hstart,hfacts⟩ := Option.bind_eq_some_iff.mp hfacts
  obtain ⟨t,hrequest,hfacts⟩ := Option.bind_eq_some_iff.mp hfacts
  obtain ⟨v,hrun,hfacts⟩ := Option.map_eq_some_iff.mp hfacts
  obtain ⟨hn,hasked,hstarted⟩ : s.threadCount = 2 ∧ v.asked = [(7,0),(8,1)] ∧ v.started = [(8,1)] := by simpa using hfacts
  have hfirst := h 2 s t v Nat.two_pos (Reaches.of_run (fun _ _ => trivial) hstart) hn hrequest
    (Reaches.of_run (fun _ _ => trivial) hrun) (fun z _ hdup => hdup.not_nodup (by rw [hasked]; decide)) (by simp [hstarted])
  simp [hstarted] at hfirst

end ThreadPool
end AudioOutput
