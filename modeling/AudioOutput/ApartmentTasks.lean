import AudioOutput.SingleThreadedApartment

/-!
# One task at a time

From the successful exchange until the slot is cleared there is one task under way.
It goes through the slot, the message and the apartment's thread in this order, and
its caller returns only after it has been executed.
-/

namespace AudioOutput
namespace SingleThreadedApartment

open Transition

universe u
variable {T X R : Type u}

def AtRest (s : State T X R) (t : T) : Prop :=
  (∀ c, s.thread t ≠ .posting c) ∧ ∀ c, s.thread t = .waiting c → s.future t ≠ none

def Quiet (s : State T X R) (o : Option T) : Prop := ∀ t, some t ≠ o → AtRest s t

def Apartment.Between : Apartment T → Prop
  | .receiving | .draining | .exited => True
  | _ => False

def Apartment.Handles (t : T) (address : ℕ) : Apartment T → Prop
  | .loading => True
  | .calling task => task = some address
  | .inside t' => t' = t
  | _ => False

inductive Stage (s : State T X R) : Prop
  | free (hslot : s.currentTask = none) (hpc : s.apartment.Between) (htasks : s.messages.count .task = 0) (hquiet : Quiet s none)
  | posting (t : T) (c : Call X) (hthread : s.thread t = .posting c) (hfuture : s.future t = none)
      (hslot : s.currentTask = some c.address) (hpc : s.apartment.Between) (htasks : s.messages.count .task = 0)
      (hquiet : Quiet s (some t))
  | posted (t : T) (c : Call X) (hthread : s.thread t = .waiting c) (hfuture : s.future t = none)
      (hslot : s.currentTask = some c.address) (hpc : s.apartment.Between) (htasks : s.messages.count .task = 1)
      (hquiet : Quiet s (some t))
  | handled (t : T) (c : Call X) (hthread : s.thread t = .waiting c) (hfuture : s.future t = none)
      (hslot : s.currentTask = some c.address) (hpc : s.apartment.Handles t c.address) (htasks : s.messages.count .task = 0)
      (hquiet : Quiet s (some t))
  | clearing (hslot : s.currentTask ≠ none) (hpc : s.apartment = .clearing) (htasks : s.messages.count .task = 0)
      (hquiet : Quiet s none)

/-- The frames of the callers, and what is known of the destruction. -/
structure FramesInv (s : State T X R) : Prop where
  owner : ∀ t c, (s.thread t).call? = some c → s.owner c.address = some t
  unset : ∀ t c, s.thread t = .exchanging c → s.future t = none
  active : ∀ t, t ∈ s.active ↔ (s.thread t).call? ≠ none
  nodup : s.active.Nodup
  closed : s.destroyed = true → s.active = []
  quitting : .quit ∈ s.messages ∨ s.apartment = .draining ∨ s.apartment = .exited → s.destroyed = true

theorem initial_stage : Stage (initial T X R) :=
  .free rfl trivial rfl fun _ _ => ⟨nofun,nofun⟩

theorem initial_framesInv : FramesInv (initial T X R) := by
  constructor <;> simp [initial,Pc.call?]

/-- What the threads with a submitted task see is the same in both states. -/
theorem Stage.frame {s t : State T X R} (h : Stage s) (hslot : t.currentTask = s.currentTask)
    (hpc : t.apartment = s.apartment) (htasks : t.messages.count .task = s.messages.count .task)
    (hthread : ∀ k, t.thread k = s.thread k ∧ t.future k = s.future k ∨ AtRest s k ∧ AtRest t k) : Stage t := by
  have hquiet {o : Option T} (hq : Quiet s o) : Quiet t o := by
    intro k hk
    rcases hthread k with ⟨hpc,hfuture⟩ | ⟨-,hrest⟩
    · have hold := hq k hk
      rw [AtRest,← hpc,← hfuture] at hold
      exact hold
    · exact hrest
  have hkept {k : T} (hnot : ¬ AtRest s k) : t.thread k = s.thread k ∧ t.future k = s.future k :=
    (hthread k).resolve_right fun hrest => hnot hrest.1
  have hwaiting {k : T} {c : Call X} (hk : s.thread k = .waiting c) (hfuture : s.future k = none) : ¬ AtRest s k :=
    fun hrest => hrest.2 c hk hfuture
  cases h with
  | free hs hp ht hq => exact .free (hslot.trans hs) (hpc ▸ hp) (htasks.trans ht) (hquiet hq)
  | posting k c hk hf hs hp ht hq =>
    obtain ⟨hk',hf'⟩ := hkept fun hrest => hrest.1 c hk
    exact .posting k c (hk'.trans hk) (hf'.trans hf) (hslot.trans hs) (hpc ▸ hp) (htasks.trans ht) (hquiet hq)
  | posted k c hk hf hs hp ht hq =>
    obtain ⟨hk',hf'⟩ := hkept (hwaiting hk hf)
    exact .posted k c (hk'.trans hk) (hf'.trans hf) (hslot.trans hs) (hpc ▸ hp) (htasks.trans ht) (hquiet hq)
  | handled k c hk hf hs hp ht hq =>
    obtain ⟨hk',hf'⟩ := hkept (hwaiting hk hf)
    exact .handled k c (hk'.trans hk) (hf'.trans hf) (hslot.trans hs) (hpc ▸ hp) (htasks.trans ht) (hquiet hq)
  | clearing hs hp ht hq => exact .clearing (hslot ▸ hs) (hpc.trans hp) (htasks.trans ht) (hquiet hq)

theorem FramesInv.idle {s : State T X R} (h : FramesInv s) (hactive : s.active = []) (t : T) : s.thread t = .idle := by
  have hnone : (s.thread t).call? = none := by
    by_contra hnot
    have hmem := (h.active t).mpr hnot
    rw [hactive] at hmem
    cases hmem
  cases hpc : s.thread t with
  | idle => rfl
  | _ => simp [hpc,Pc.call?] at hnone

/-- Between two messages a task in the queue is that of the caller whose task is in the slot. -/
theorem Stage.receive {s : State T X R} (h : Stage s) {m : Message} {rest : List Message} (hpc : s.apartment = .receiving)
    (hm : s.messages = m :: rest) : Stage { s with messages := rest, apartment := handler m } := by
  have hcount : s.messages.count .task = rest.count .task+if m = .task then 1 else 0 := by
    rw [hm,List.count_cons]
    simp only [beq_iff_eq]
  have hbetween (hne : m ≠ .task) : (handler m : Apartment T).Between := by
    cases m with
    | task => exact absurd rfl hne
    | _ => trivial
  have hhandled (t : T) (address : ℕ) (ht : m = .task) : (handler m : Apartment T).Handles t address := by
    rw [ht]
    trivial
  cases h with
  | free hs hp ht hq =>
    have hne : m ≠ .task := fun heq => by simp [heq,ht] at hcount
    exact .free hs (hbetween hne) (by simp [hne,ht] at hcount; simpa using hcount.symm) hq
  | posting t c hthread hf hs hp ht hq =>
    have hne : m ≠ .task := fun heq => by simp [heq,ht] at hcount
    exact .posting t c hthread hf hs (hbetween hne) (by simp [hne,ht] at hcount; simpa using hcount.symm) hq
  | posted t c hthread hf hs hp ht hq =>
    by_cases heq : m = .task
    · exact .handled t c hthread hf hs (hhandled t c.address heq) (by simpa [heq,ht] using hcount) hq
    · exact .posted t c hthread hf hs (hbetween heq) (by simpa [heq,ht] using hcount.symm) hq
  | handled t c hthread hf hs hp ht hq =>
    rw [hpc] at hp
    cases hp
  | clearing hs hp => simp [hpc] at hp

/-- While it loads, dereferences or runs a task, that is the task of the caller that
waits for it. -/
theorem Stage.at_task {s : State T X R} (h : Stage s) (hnot : ¬ s.apartment.Between) (hnot' : s.apartment ≠ .clearing) :
    ∃ t c, s.thread t = .waiting c ∧ s.future t = none ∧ s.currentTask = some c.address ∧
      s.apartment.Handles t c.address ∧ s.messages.count .task = 0 ∧ Quiet s (some t) := by
  cases h with
  | free _ hp => exact absurd hp hnot
  | posting _ _ _ _ _ hp => exact absurd hp hnot
  | posted _ _ _ _ _ hp => exact absurd hp hnot
  | handled t c hthread hf hs hp ht hq => exact ⟨t,c,hthread,hf,hs,hp,ht,hq⟩
  | clearing _ hp => exact absurd hp hnot'

def Apartment.working : Apartment T → Bool
  | .loading | .calling _ | .inside _ | .clearing => true
  | _ => false

theorem Stage.tasks_le {s : State T X R} (h : Stage s) :
    s.messages.count .task+(if s.apartment.working then 1 else 0) ≤ 1 := by
  have hbetween (hp : s.apartment.Between) : s.apartment.working = false := by
    cases hpc : s.apartment <;> simp_all [Apartment.Between,Apartment.working]
  cases h with
  | free _ hp ht _ => simp [ht,hbetween hp]
  | posting _ _ _ _ _ hp ht _ => simp [ht,hbetween hp]
  | posted _ _ _ _ _ hp ht _ => simp [ht,hbetween hp]
  | handled _ _ _ _ _ _ ht _ => rw [ht]; split <;> simp
  | clearing _ _ ht _ => rw [ht]; split <;> simp

theorem Stage.ne_undefined {s : State T X R} (h : Stage s) : s.apartment ≠ .undefined := by
  intro hpc
  obtain ⟨t,c,-,-,-,hp,-,-⟩ := h.at_task (by simp [hpc,Apartment.Between]) (by simp [hpc])
  rw [hpc] at hp
  cases hp

theorem Stage.load {s : State T X R} (h : Stage s) (hpc : s.apartment = .loading) :
    Stage { s with apartment := .calling s.currentTask } := by
  obtain ⟨t,c,hthread,hf,hs,-,ht,hq⟩ := h.at_task (by simp [hpc,Apartment.Between]) (by simp [hpc])
  exact .handled t c hthread hf hs hs ht hq

theorem Stage.dereference {s : State T X R} (h : Stage s) (hframes : FramesInv s) {task : Option ℕ}
    (hpc : s.apartment = .calling task) : Stage { s with apartment := s.target task } := by
  obtain ⟨t,c,hthread,hf,hs,hp,ht,hq⟩ := h.at_task (by simp [hpc,Apartment.Between]) (by simp [hpc])
  rw [hpc] at hp
  have htask : task = some c.address := hp
  have howner := hframes.owner t c (by rw [hthread]; rfl)
  have htarget : s.target task = .inside t := by simp [State.target,htask,howner]
  exact .handled t c hthread hf hs (by rw [htarget]; rfl) ht hq

theorem Stage.clear {s : State T X R} (h : Stage s) (hpc : s.apartment = .clearing) :
    Stage { s with currentTask := none, apartment := .receiving } := by
  cases h with
  | free _ hp => simp [hpc,Apartment.Between] at hp
  | posting _ _ _ _ _ hp => simp [hpc,Apartment.Between] at hp
  | posted _ _ _ _ _ hp => simp [hpc,Apartment.Between] at hp
  | handled _ _ _ _ _ hp => simp [hpc,Apartment.Handles] at hp
  | clearing hs hp ht hq => exact .free rfl trivial ht hq

theorem Stage.draining {s : State T X R} (h : Stage s) (hframes : FramesInv s) (hpc : s.apartment = .draining) :
    s.currentTask = none ∧ s.messages.count .task = 0 ∧ Quiet s none := by
  have hidle := hframes.idle (hframes.closed (hframes.quitting (Or.inr (Or.inl hpc))))
  cases h with
  | free hs _ ht hq => exact ⟨hs,ht,hq⟩
  | posting t c hthread => simp [hidle t] at hthread
  | posted t c hthread => simp [hidle t] at hthread
  | handled t c hthread => simp [hidle t] at hthread
  | clearing _ hp => simp [hpc] at hp

theorem FramesInv.of_apartment {s t : State T X R} (h : FramesInv s)
    (hsame : t.thread = s.thread ∧ t.owner = s.owner ∧ t.active = s.active)
    (hunset : ∀ k c, s.thread k = .exchanging c → t.future k = none) (hclosed : t.destroyed = true → s.active = [])
    (hquit : .quit ∈ t.messages ∨ t.apartment = .draining ∨ t.apartment = .exited → t.destroyed = true) : FramesInv t := by
  obtain ⟨hthread,howner,hactive⟩ := hsame
  refine ⟨?_,?_,?_,?_,?_,hquit⟩ <;> simp only [hthread,howner,hactive]
  · exact h.owner
  · exact hunset
  · exact h.active
  · exact h.nodup
  · exact hclosed

variable [DecidableEq T]

@[simp] theorem setThread_self (s : State T X R) (t : T) (pc : Pc X) : (s.setThread t pc).thread t = pc :=
  Function.update_self _ _ _

theorem setThread_ne (s : State T X R) {t k : T} (pc : Pc X) (hk : k ≠ t) : (s.setThread t pc).thread k = s.thread k :=
  Function.update_of_ne hk _ _

theorem Stage.begin {s : State T X R} (h : Stage s) {t : T} (x : X) (address : ℕ) (hpc : s.thread t = .idle) :
    Stage (s.begin t x address) := by
  refine h.frame rfl rfl rfl fun k => ?_
  by_cases hk : k = t
  · subst hk
    exact Or.inr ⟨⟨by simp [hpc],by simp [hpc]⟩,⟨by simp [State.begin],by simp [State.begin]⟩⟩
  · exact Or.inl ⟨setThread_ne s _ hk,Function.update_of_ne hk _ _⟩

/-- The exchange succeeds only when no task is under way. -/
theorem Stage.exchange {s : State T X R} (h : Stage s) {t : T} (c : Call X) (hfuture : s.future t = none)
    (hfree : s.currentTask = none) : Stage { s.setThread t (.posting c) with currentTask := some c.address } := by
  cases h with
  | free hs hp ht hq =>
    refine .posting t c (setThread_self s t _) hfuture rfl hp ht fun k hk => ?_
    have hne : k ≠ t := fun heq => hk (heq ▸ rfl)
    have hold := hq k nofun
    rw [AtRest] at hold ⊢
    simpa only [State.setThread,Function.update_of_ne hne] using hold
  | posting _ _ _ _ hs => simp [hfree] at hs
  | posted _ _ _ _ hs => simp [hfree] at hs
  | handled _ _ _ _ hs => simp [hfree] at hs
  | clearing hs => exact absurd hfree hs

theorem Stage.post {s : State T X R} (h : Stage s) {t : T} {c : Call X} (hpc : s.thread t = .posting c) :
    Stage { s.setThread t (.waiting c) with messages := s.messages ++ [.task] } := by
  have honly {o : Option T} (hq : Quiet s o) : some t = o := by
    by_contra hne
    exact (hq t hne).1 c hpc
  cases h with
  | posting k c' hk hf hs hp ht hq =>
    cases honly hq
    rw [hpc] at hk
    cases hk
    refine .posted t c (setThread_self s t _) hf hs hp (by simp [ht]) fun k hk => ?_
    have hne : k ≠ t := fun heq => hk (heq ▸ rfl)
    have hold := hq k hk
    rw [AtRest] at hold ⊢
    simpa only [State.setThread,Function.update_of_ne hne] using hold
  | free _ _ _ hq => cases honly hq
  | posted k c' hk _ _ _ _ hq =>
    cases honly hq
    simp [hpc] at hk
  | handled k c' hk _ _ _ _ hq =>
    cases honly hq
    simp [hpc] at hk
  | clearing _ _ _ hq => cases honly hq

theorem Stage.finish {s : State T X R} (h : Stage s) {t : T} {c : Call X} {r : R} (hpc : s.thread t = .waiting c)
    (hfuture : s.future t = some r) : Stage (s.finish t c r) := by
  refine h.frame rfl rfl rfl fun k => ?_
  by_cases hk : k = t
  · subst hk
    exact Or.inr ⟨⟨by simp [hpc],by simp [hfuture]⟩,⟨by simp [State.finish],by simp [State.finish]⟩⟩
  · exact Or.inl ⟨setThread_ne s _ hk,rfl⟩

theorem Stage.execute_eq {s : State T X R} (h : Stage s) {t : T} (hpc : s.apartment = .inside t) (r : R) :
    ∃ c, s.thread t = .waiting c ∧ s.future t = none ∧ s.execute t r = { s with
      future := Function.update s.future t (some r)
      executed := s.executed ++ [(c.number,c.callable,r)]
      apartment := .clearing } := by
  obtain ⟨t',c,hthread,hf,-,hp,-,-⟩ := h.at_task (by simp [hpc,Apartment.Between]) (by simp [hpc])
  rw [hpc] at hp
  obtain rfl : t = t' := hp
  exact ⟨c,hthread,hf,by simp [State.execute,hthread,Pc.call?,hf]⟩

theorem Stage.execute {s : State T X R} (h : Stage s) {t : T} (hpc : s.apartment = .inside t) (r : R) :
    Stage (s.execute t r) := by
  obtain ⟨c,hthread,hf,heq⟩ := h.execute_eq hpc r
  obtain ⟨t',c',-,-,hs,hp,ht,hq⟩ := h.at_task (by simp [hpc,Apartment.Between]) (by simp [hpc])
  rw [hpc] at hp
  obtain rfl : t = t' := hp
  rw [heq]
  refine .clearing (by simp [hs]) rfl ht fun k _ => ?_
  by_cases hk : k = t
  · subst hk
    exact ⟨by simp [hthread],by simp⟩
  · have hold := hq k (by simpa using hk)
    rw [AtRest] at hold ⊢
    simpa only [Function.update_of_ne hk] using hold

theorem Stage.step {s t : State T X R} {a : Action T X R} (h : Stage s) (hframes : FramesInv s) (hmove : Move s a t) :
    Stage t := by
  cases hmove with
  | call hpc howner hopen => exact h.begin _ _ hpc
  | exchange hpc hfree => exact h.exchange _ (hframes.unset _ _ hpc) hfree
  | retry hpc => exact h
  | post hpc => exact h.post hpc
  | get hpc hfuture => exact h.finish hpc hfuture
  | message hm =>
    refine h.frame rfl rfl ?_ fun k => Or.inl ⟨rfl,rfl⟩
    rcases hm with rfl | rfl <;> simp
  | receive hpc hm => exact h.receive hpc hm
  | load hpc => exact h.load hpc
  | dereference hpc => exact h.dereference hframes hpc
  | execute hpc => exact h.execute hpc _
  | clear hpc => exact h.clear hpc
  | drain hpc hm =>
    obtain ⟨hs,ht,hq⟩ := h.draining hframes hpc
    rw [hm,List.count_cons] at ht
    exact .free hs (by rw [hpc]; trivial) (Nat.add_eq_zero_iff.mp ht).1 hq
  | exit hpc hm =>
    obtain ⟨hs,ht,hq⟩ := h.draining hframes hpc
    exact .free hs trivial ht hq
  | destroy hactive hopen => exact h.frame rfl rfl (by simp) fun k => Or.inl ⟨rfl,rfl⟩

theorem FramesInv.begin {s : State T X R} (h : FramesInv s) {t : T} (x : X) {address : ℕ} (hpc : s.thread t = .idle)
    (howner : s.owner address = none) (hopen : s.destroyed = false) : FramesInv (s.begin t x address) := by
  refine ⟨fun k c hk => ?_,fun k c hk => ?_,fun k => ?_,?_,?_,h.quitting⟩
  · by_cases hkt : k = t
    · subst hkt
      simp only [State.begin,setThread_self,Pc.call?,Option.some.injEq] at hk
      simp [State.begin,← hk]
    · have hold := h.owner k c (by simpa [State.begin,setThread_ne s _ hkt] using hk)
      have hne : c.address ≠ address := by
        intro heq
        rw [heq,howner] at hold
        cases hold
      simpa [State.begin,hne] using hold
  · by_cases hkt : k = t
    · simp [State.begin,hkt]
    · have hold := h.unset k c (by simpa [State.begin,setThread_ne s _ hkt] using hk)
      simpa [State.begin,hkt] using hold
  · by_cases hkt : k = t
    · simp [State.begin,hkt,Pc.call?]
    · simpa [State.begin,setThread_ne s _ hkt,hkt] using h.active k
  · refine List.nodup_cons.mpr ⟨fun hmem => ?_,h.nodup⟩
    have hcall := (h.active t).mp hmem
    simp [hpc,Pc.call?] at hcall
  · intro hdestroyed
    simp [State.begin,State.setThread,hopen] at hdestroyed

/-- A caller goes on within its call. -/
theorem FramesInv.advance {s t : State T X R} (h : FramesInv s) {k : T} {pc : Pc X} (hcall : pc.call? = (s.thread k).call?)
    (hnot : ∀ c, pc ≠ .exchanging c) (hthread : t.thread = Function.update s.thread k pc)
    (hsame : t.owner = s.owner ∧ t.active = s.active ∧ t.future = s.future ∧ t.destroyed = s.destroyed ∧
      t.apartment = s.apartment) (hquit : .quit ∈ t.messages → .quit ∈ s.messages) : FramesInv t := by
  obtain ⟨howner,hactive,hfuture,hdestroyed,hpc⟩ := hsame
  have hcalls (j : T) : (t.thread j).call? = (s.thread j).call? := by
    by_cases hj : j = k
    · rw [hthread,hj,Function.update_self,hcall]
    · rw [hthread,Function.update_of_ne hj]
  refine ⟨?_,fun j c hj => ?_,?_,?_,?_,?_⟩ <;> simp only [hcalls,howner,hactive,hfuture,hdestroyed,hpc]
  · exact h.owner
  · by_cases hjk : j = k
    · rw [hthread,hjk,Function.update_self] at hj
      exact absurd hj (hnot c)
    · rw [hthread,Function.update_of_ne hjk] at hj
      exact h.unset j c hj
  · exact h.active
  · exact h.nodup
  · exact h.closed
  · exact fun hq => h.quitting (hq.imp_left hquit)

theorem FramesInv.finish {s : State T X R} (h : FramesInv s) {t : T} {c : Call X} (hpc : s.thread t = .waiting c) (r : R) :
    FramesInv (s.finish t c r) := by
  have howner := h.owner t c (by rw [hpc]; rfl)
  refine ⟨fun k c' hk => ?_,fun k c' hk => ?_,fun k => ?_,h.nodup.erase t,fun hd => ?_,h.quitting⟩
  · have hkt : k ≠ t := by
      rintro rfl
      simp [State.finish,Pc.call?] at hk
    have hold := h.owner k c' (by simpa [State.finish,setThread_ne s _ hkt] using hk)
    have hne : c'.address ≠ c.address := by
      intro heq
      rw [heq,howner] at hold
      exact hkt (Option.some.inj hold).symm
    simpa [State.finish,hne] using hold
  · have hkt : k ≠ t := by
      rintro rfl
      simp [State.finish] at hk
    exact h.unset k c' (by simpa [State.finish,setThread_ne s _ hkt] using hk)
  · by_cases hkt : k = t
    · subst hkt
      simp [State.finish,Pc.call?,h.nodup.not_mem_erase]
    · simp only [State.finish,setThread_ne s _ hkt,h.nodup.mem_erase_iff]
      simpa [hkt] using h.active k
  · simp [State.finish,h.closed hd]

theorem FramesInv.step {s t : State T X R} {a : Action T X R} (h : FramesInv s) (hstage : Stage s) (hmove : Move s a t) :
    FramesInv t := by
  cases hmove with
  | call hpc howner hopen => exact h.begin _ hpc howner hopen
  | exchange hpc hfree => exact h.advance (by rw [hpc]; rfl) (fun _ => by simp) rfl ⟨rfl,rfl,rfl,rfl,rfl⟩ id
  | retry hpc => exact h
  | post hpc => exact h.advance (by rw [hpc]; rfl) (fun _ => by simp) rfl ⟨rfl,rfl,rfl,rfl,rfl⟩ (by simp)
  | get hpc hfuture => exact h.finish hpc _
  | message hm =>
    refine h.of_apartment ⟨rfl,rfl,rfl⟩ h.unset h.closed fun hq => h.quitting (hq.imp_left fun hmem => ?_)
    rcases hm with rfl | rfl <;> simpa using hmem
  | @receive m rest hpc hm =>
    refine h.of_apartment ⟨rfl,rfl,rfl⟩ h.unset h.closed fun hq => h.quitting (Or.inl ?_)
    rw [hm]
    rcases hq with hq | hq | hq
    · exact List.mem_cons_of_mem _ hq
    · cases m <;> first | exact List.mem_cons_self | cases hq
    · cases m <;> cases hq
  | load hpc =>
    exact h.of_apartment ⟨rfl,rfl,rfl⟩ h.unset h.closed fun hq => h.quitting (hq.imp_right fun hpc' => by simp at hpc')
  | @dereference task hpc =>
    refine h.of_apartment ⟨rfl,rfl,rfl⟩ h.unset h.closed fun hq => h.quitting (hq.imp_right fun hpc' => ?_)
    cases htask : task.bind s.owner <;> simp [State.target,htask] at hpc'
  | @execute k r hpc =>
    obtain ⟨c,hthread,hf,heq⟩ := hstage.execute_eq hpc r
    rw [heq]
    refine h.of_apartment ⟨rfl,rfl,rfl⟩ (fun j c' hj => ?_) h.closed fun hq =>
      h.quitting (hq.imp_right fun hpc' => by simp at hpc')
    have hjk : j ≠ k := by
      rintro rfl
      simp [hthread] at hj
    simpa [hjk] using h.unset j c' hj
  | clear hpc =>
    exact h.of_apartment ⟨rfl,rfl,rfl⟩ h.unset h.closed fun hq => h.quitting (hq.imp_right fun hpc' => by simp at hpc')
  | drain hpc hm =>
    exact h.of_apartment ⟨rfl,rfl,rfl⟩ h.unset h.closed fun _ => h.quitting (Or.inr (Or.inl hpc))
  | exit hpc hm => exact h.of_apartment ⟨rfl,rfl,rfl⟩ h.unset h.closed fun _ => h.quitting (Or.inr (Or.inl hpc))
  | destroy hactive hopen => exact h.of_apartment ⟨rfl,rfl,rfl⟩ h.unset (fun _ => hactive) fun _ => rfl

end SingleThreadedApartment
end AudioOutput
