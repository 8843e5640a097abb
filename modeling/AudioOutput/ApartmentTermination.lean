import AudioOutput.ApartmentCalls

/-!
# Every call of the apartment returns

While no call is begun, the calls under way return, however often an exchange fails and
however many messages of others the apartment's thread gets. After the destruction the
thread ends, once no more messages come.
-/

namespace AudioOutput
namespace SingleThreadedApartment

open Transition

universe u
variable {T X R : Type u}

/-- A task message costs as much as it takes to execute a task. -/
def Pc.cost : Pc X → ℕ
  | .idle => 0
  | .exchanging _ => 18
  | .posting _ => 12
  | .waiting _ => 6

def Apartment.cost : Apartment T → ℕ
  | .loading => 4
  | .calling _ => 3
  | .inside _ => 2
  | .clearing => 1
  | _ => 0

def callsLeft [Fintype T] (s : State T X R) : ℕ :=
  (∑ t, (s.thread t).cost)+5*s.messages.count .task+s.apartment.cost

/-- How far it is to the last task message; what comes behind it does not count. -/
def ahead : List Message → ℕ
  | [] => 0
  | m :: rest => if .task ∈ m :: rest then ahead rest+1 else 0

def remaining [Fintype T] (s : State T X R) : ℕ ×ₗ ℕ := toLex (callsLeft s,ahead s.messages)

@[simp] theorem ahead_cons_of_mem {m : Message} {rest : List Message} (h : .task ∈ m :: rest) :
    ahead (m :: rest) = ahead rest+1 := if_pos h

@[simp] theorem ahead_of_notMem {ms : List Message} (h : .task ∉ ms) : ahead ms = 0 := by
  cases ms with
  | nil => rfl
  | cons m rest => exact if_neg h

theorem ahead_concat {m : Message} (hm : m ≠ .task) (ms : List Message) : ahead (ms ++ [m]) = ahead ms := by
  induction ms with
  | nil => exact ahead_of_notMem (by simpa using hm.symm)
  | cons k ms ih =>
    have hmem : .task ∈ k :: (ms ++ [m]) ↔ .task ∈ k :: ms := by simp [hm.symm]
    rw [List.cons_append,ahead,ahead,ih]
    simp only [hmem]

theorem handler_cost (m : Message) : (handler m : Apartment T).cost = if m = .task then 4 else 0 := by
  cases m <;> rfl

theorem State.target_cost_le (s : State T X R) (task : Option ℕ) : (s.target task).cost ≤ 2 := by
  unfold State.target
  split <;> simp [Apartment.cost]

/-- A failed exchange, or a message that is not a caller's comes or is taken away. -/
inductive Idles (s : State T X R) : Action T X R → State T X R → Prop
  | retry {t : T} {spurious : Bool} (hfails : spurious = true ∨ s.currentTask ≠ none) : Idles s (.exchange t spurious) s
  | message {m : Message} (hm : m ≠ .task) : Idles s (.message m) { s with messages := s.messages ++ [m] }
  | receive {m : Message} {rest : List Message} (hpc : s.apartment = .receiving) (hm : s.messages = m :: rest)
      (hnone : .task ∉ s.messages) : Idles s .apartment { s with messages := rest, apartment := handler m }
  | drain {m : Message} {rest : List Message} (hpc : s.apartment = .draining) (hm : s.messages = m :: rest)
      (hnone : .task ∉ s.messages) : Idles s .apartment { s with messages := rest }
  | exit (hpc : s.apartment = .draining) : Idles s .apartment { s with apartment := .exited }

def Scheduled : Action T X R → Prop
  | .exchange _ spurious => spurious = false
  | .post _ | .get _ | .apartment | .execute _ => True
  | _ => False

def Unasked : Action T X R → Prop
  | .callInApartment _ _ _ | .destroy => False
  | _ => True

def Helpful (s : State T X R) : Action T X R → Prop
  | .exchange t spurious => spurious = false ∧ s.currentTask = none ∧ ∃ c, s.thread t = .exchanging c
  | .post t => ∃ c, s.thread t = .posting c
  | .get t => ∃ c r, s.thread t = .waiting c ∧ s.future t = some r
  | .apartment =>
    match s.apartment with
    | .receiving => .task ∈ s.messages
    | .loading | .calling _ | .clearing => True
    | _ => False
  | .execute _ => ∃ t, s.apartment = .inside t
  | _ => False

variable [Fintype T] {s u : State T X R} {a : Action T X R}

theorem remaining_lt_of_calls (h : callsLeft u < callsLeft s) : remaining u < remaining s :=
  Prod.Lex.toLex_lt_toLex.mpr (Or.inl h)

theorem remaining_lt_of_ahead (h : callsLeft u ≤ callsLeft s) (hahead : ahead u.messages < ahead s.messages) :
    remaining u < remaining s :=
  Prod.Lex.toLex_lt_toLex.mpr (h.lt_or_eq.imp_right fun heq => ⟨heq,hahead⟩)

theorem Idles.keeps (h : Idles s a u) : remaining u = remaining s ∧ ∀ b, Helpful s b → Helpful u b := by
  have hother {v : State T X R} (hthread : v.thread = s.thread) (hslot : v.currentTask = s.currentTask)
      (hfuture : v.future = s.future) (hpc : Helpful s .apartment → Helpful v .apartment)
      (hinside : ∀ t, s.apartment = .inside t → v.apartment = .inside t) (b : Action T X R) (hb : Helpful s b) : Helpful v b := by
    cases b with
    | exchange | post | get =>
      simp only [Helpful,hthread,hslot,hfuture] at hb ⊢
      exact hb
    | apartment => exact hpc hb
    | execute => exact hb.imp hinside
    | _ => exact hb.elim
  cases h with
  | retry => exact ⟨rfl,fun _ => id⟩
  | @message m hm =>
    have hcount : (s.messages ++ [m]).count .task = s.messages.count .task := by simp [hm]
    refine ⟨by rw [remaining,remaining,callsLeft,callsLeft,hcount,ahead_concat hm],hother rfl rfl rfl (fun h => ?_) fun _ => id⟩
    simp only [Helpful] at h ⊢
    split at h
    · exact List.mem_append_left _ h
    · trivial
    · trivial
    · trivial
    · exact h.elim
  | @receive m rest hpc hm hnone =>
    have hrest : .task ∉ rest := fun h => hnone (hm ▸ List.mem_cons_of_mem _ h)
    have hne : m ≠ .task := by
      rintro rfl
      exact hnone (hm ▸ List.mem_cons_self)
    refine ⟨?_,hother rfl rfl rfl (fun h => absurd (by simpa [Helpful,hpc] using h) hnone) (by simp [hpc])⟩
    have hcost : s.apartment.cost = 0 := by rw [hpc]; rfl
    simp [remaining,callsLeft,hcost,handler_cost,hne,List.count_eq_zero.mpr hnone,List.count_eq_zero.mpr hrest,hnone,hrest]
  | @drain m rest hpc hm hnone =>
    have hrest : .task ∉ rest := fun h => hnone (hm ▸ List.mem_cons_of_mem _ h)
    refine ⟨?_,hother rfl rfl rfl (fun h => by simp [Helpful,hpc] at h) fun _ => id⟩
    simp [remaining,callsLeft,List.count_eq_zero.mpr hnone,List.count_eq_zero.mpr hrest,hnone,hrest]
  | exit hpc =>
    refine ⟨?_,hother rfl rfl rfl (fun h => by simp [Helpful,hpc] at h) (by simp [hpc])⟩
    simp [remaining,callsLeft,hpc,Apartment.cost]

variable [DecidableEq T]

theorem caller_lt {t : T} {pc : Pc X} (hthread : u.thread = Function.update s.thread t pc) (hpc : u.apartment = s.apartment)
    (hlt : pc.cost+5*u.messages.count .task < (s.thread t).cost+5*s.messages.count .task) : remaining u < remaining s := by
  have hsum := sum_update Pc.cost s.thread t pc
  rw [← hthread] at hsum
  refine remaining_lt_of_calls ?_
  rw [callsLeft,callsLeft,hpc]
  omega

omit [DecidableEq T] in
theorem apartment_lt (hthread : u.thread = s.thread)
    (hlt : 5*u.messages.count .task+u.apartment.cost < 5*s.messages.count .task+s.apartment.cost) :
    remaining u < remaining s := by
  refine remaining_lt_of_calls ?_
  rw [callsLeft,callsLeft,hthread]
  omega

omit [DecidableEq T] in
theorem pop_lt {m : Message} {rest : List Message} {apartment : Apartment T} (hm : s.messages = m :: rest)
    (htask : .task ∈ s.messages) (hcost : apartment.cost ≤ s.apartment.cost+if m = .task then 4 else 0) :
    remaining { s with messages := rest, apartment := apartment } < remaining s := by
  by_cases heq : m = .task
  · rw [if_pos heq] at hcost
    refine apartment_lt rfl ?_
    rw [hm,heq,List.count_cons_self]
    dsimp only
    omega
  · rw [if_neg heq,Nat.add_zero] at hcost
    refine remaining_lt_of_ahead ?_ ?_
    · rw [callsLeft,callsLeft,hm,List.count_cons_of_ne heq]
      exact Nat.add_le_add_left hcost _
    · rw [hm] at htask ⊢
      rw [ahead_cons_of_mem htask]
      exact Nat.lt_succ_self _

theorem Stage.lowers (hs : Stage s) (h : SingleThreadedApartment.step s a = some u) (ha : Unasked a) :
    Idles s a u ∨ remaining u < remaining s := by
  cases Move.of_step h with
  | call | destroy => exact ha.elim
  | exchange hpc hfree => exact Or.inr (caller_lt rfl rfl (by simp [hpc,Pc.cost,State.setThread]))
  | @retry t spurious c hpc =>
    refine Or.inl (.retry ?_)
    by_contra hnot
    obtain ⟨rfl,hfree⟩ : spurious = false ∧ s.currentTask = none := by simpa using hnot
    -- this exchange would have succeeded
    simp only [SingleThreadedApartment.step,hpc,hfree,Option.some.injEq] at h
    have hthread := setThread_self s t (.posting c)
    rw [← congrArg (fun v => v.thread t) h] at hpc
    cases hthread.symm.trans hpc
  | post hpc => exact Or.inr (caller_lt rfl rfl (by simp [hpc,Pc.cost]; omega))
  | get hpc hfuture => exact Or.inr (caller_lt rfl rfl (by simp [hpc,Pc.cost,State.setThread,State.finish]))
  | message hm => exact Or.inl (.message (by rcases hm with rfl | rfl <;> simp))
  | @receive m rest hpc hm =>
    by_cases htask : .task ∈ s.messages
    · exact Or.inr (pop_lt hm htask (by rw [handler_cost,hpc]; simp [Apartment.cost]))
    · exact Or.inl (.receive hpc hm htask)
  | load hpc => exact Or.inr (apartment_lt rfl (by simp [hpc,Apartment.cost]))
  | @dereference task hpc =>
    refine Or.inr (apartment_lt rfl ?_)
    have hle := s.target_cost_le task
    have hcost : s.apartment.cost = 3 := by rw [hpc]; rfl
    dsimp only
    omega
  | @execute t r hpc =>
    obtain ⟨c,-,-,heq⟩ := hs.execute_eq hpc r
    rw [heq]
    exact Or.inr (apartment_lt rfl (by simp [hpc,Apartment.cost]))
  | clear hpc => exact Or.inr (apartment_lt rfl (by simp [hpc,Apartment.cost]))
  | @drain m rest hpc hm =>
    by_cases htask : .task ∈ s.messages
    · exact Or.inr (pop_lt hm htask (Nat.le_add_right _ _))
    · exact Or.inl (.drain hpc hm htask)
  | exit hpc hm => exact Or.inl (.exit hpc)

omit [Fintype T] in
theorem Inv.preserved (hs : Inv s) (h : Move s a u) : Inv u :=
  ⟨hs.stage.step hs.frames h,hs.frames.step hs.stage h,hs.calls.step hs.stage h⟩

omit [Fintype T] in
theorem Helpful.enabled (h : Helpful s a) : Scheduled a ∧ (step s a).isSome := by
  cases a with
  | exchange t spurious =>
    obtain ⟨rfl,hfree,c,hpc⟩ := h
    exact ⟨rfl,by simp [step,hpc,hfree]⟩
  | post t =>
    obtain ⟨c,hpc⟩ := h
    exact ⟨trivial,by simp [step,hpc]⟩
  | get t =>
    obtain ⟨c,r,hpc,hfuture⟩ := h
    exact ⟨trivial,by simp [step,hpc,hfuture]⟩
  | apartment =>
    refine ⟨trivial,?_⟩
    simp only [Helpful] at h
    simp only [step,apartmentThread]
    split at h
    case h_1 hpc =>
      obtain ⟨m,rest,hm⟩ := List.exists_cons_of_ne_nil (List.ne_nil_of_mem h)
      rw [hpc,hm]
      rfl
    case h_2 hpc => rw [hpc]; rfl
    case h_3 hpc => rw [hpc]; rfl
    case h_4 hpc => rw [hpc]; rfl
    case h_5 => exact h.elim
  | execute r =>
    obtain ⟨t,hpc⟩ := h
    exact ⟨trivial,by simp [step,hpc]⟩
  | _ => exact h.elim

omit [Fintype T] [DecidableEq T] in
theorem Helpful.not_idles (h : Helpful s a) : ¬ Idles s a u := by
  rintro (hfails | hm | ⟨hpc,-,hnone⟩ | ⟨hpc,-,hnone⟩ | hpc)
  · rcases hfails with rfl | hslot
    · cases h.1
    · exact hslot h.2.1
  · exact h.elim
  · simp only [Helpful,hpc] at h
    exact hnone h
  · simp [Helpful,hpc] at h
  · simp [Helpful,hpc] at h

omit [Fintype T] [DecidableEq T] in
/-- As long as a call is under way there is a helpful step. -/
theorem Inv.progress [Nonempty R] (hs : Inv s) {t : T} (ht : s.thread t ≠ .idle) : ∃ a, Helpful s a := by
  have hreturned {t : T} {c : Call X} (hpc : s.thread t = .waiting c) (hfuture : s.future t ≠ none) : ∃ a, Helpful s a := by
    obtain ⟨r,hr⟩ := Option.ne_none_iff_exists'.mp hfuture
    exact ⟨.get t,c,r,hpc,hr⟩
  cases hs.stage with
  | free hslot _ _ hquiet =>
    cases hpc : s.thread t with
    | idle => exact absurd hpc ht
    | exchanging c => exact ⟨.exchange t false,rfl,hslot,c,hpc⟩
    | posting c => exact absurd hpc ((hquiet t nofun).1 c)
    | waiting c => exact hreturned hpc ((hquiet t nofun).2 c hpc)
  | posting k c hthread => exact ⟨.post k,c,hthread⟩
  | posted k c hthread _ _ hpc htasks =>
    -- nobody has begun to take the apartment down, as a call is under way
    have hopen (hquit : s.apartment = .draining ∨ s.apartment = .exited) : False := by
      have hidle := hs.frames.idle (hs.frames.closed (hs.frames.quitting (Or.inr hquit))) k
      rw [hthread] at hidle
      cases hidle
    refine ⟨.apartment,?_⟩
    cases hap : s.apartment with
    | receiving =>
      simp only [Helpful,hap]
      exact List.count_pos_iff.mp (by omega)
    | draining => exact (hopen (Or.inl hap)).elim
    | exited => exact (hopen (Or.inr hap)).elim
    | _ => simp [hap,Apartment.Between] at hpc
  | handled k c _ _ _ hpc =>
    cases hap : s.apartment with
    | loading | calling => exact ⟨.apartment,by simp [Helpful,hap]⟩
    | inside k' => exact ⟨.execute Classical.ofNonempty,k',hap⟩
    | _ => simp [hap,Apartment.Handles] at hpc
  | clearing _ hpc => exact ⟨.apartment,by simp [Helpful,hpc]⟩

theorem Inv.atRest [Nonempty R] (e : Execution (step (T := T) (X := X) (R := R)) Unasked) (hs : Inv (e.state 0))
    (hfair : e.FairTo Scheduled) : ∃ m, ∀ t, (e.state m).thread t = .idle := by
  refine e.eventually_of_helpful (I := Inv) (G := fun s => ∀ t, s.thread t = .idle) hfair Helpful remaining hs
    (fun s a u _ hs hstep => ?_) (fun s a u ha hs _ hstep => ?_) (fun s a hs _ hhelps => ?_) fun s hs hnot => ?_
  · exact hs.preserved (.of_step hstep)
  · rcases hs.stage.lowers hstep ha with hidles | hlow
    · exact Or.inr ⟨hidles.keeps.1.le,hidles.keeps.2⟩
    · exact Or.inl hlow
  · obtain ⟨hscheduled,henabled⟩ := hhelps.enabled
    obtain ⟨u,hu⟩ := Option.isSome_iff_exists.mp henabled
    have hunasked : Unasked a := by cases a <;> trivial
    exact ⟨hscheduled,u,hu,(hs.stage.lowers hu hunasked).resolve_left hhelps.not_idles⟩
  · push Not at hnot
    obtain ⟨t,ht⟩ := hnot
    exact hs.progress ht

/-- A call that has been begun is under way or has returned. -/
def Answered (s : State T X R) : Prop :=
  ∀ k < s.calls.length, (∃ t c, (s.thread t).call? = some c ∧ c.number = k) ∨ ∃ x r, (k,x,r) ∈ s.returned

omit [Fintype T] in
theorem Answered.step (hs : Answered s) (h : Move s a u) : Answered u := by
  have hadvance {t : T} {pc : Pc X} (hcall : pc.call? = (s.thread t).call?) (hcalls : u.calls = s.calls)
      (hthread : u.thread = Function.update s.thread t pc) (hreturned : u.returned = s.returned) : Answered u := by
    intro k hk
    rw [hcalls] at hk
    rw [hreturned]
    refine (hs k hk).imp_left ?_
    rintro ⟨v,c,hc,hnumber⟩
    refine ⟨v,c,?_,hnumber⟩
    by_cases hvt : v = t
    · rw [hthread,hvt,Function.update_self,hcall,← hvt,hc]
    · rw [hthread,Function.update_of_ne hvt,hc]
  cases h with
  | @call t x address hpc =>
    intro k hk
    have hlength : (s.begin t x address).calls.length = s.calls.length+1 := List.length_append
    rw [hlength] at hk
    rcases Nat.lt_succ_iff_lt_or_eq.mp hk with hk | rfl
    · refine (hs k hk).imp_left ?_
      rintro ⟨v,c,hc,hnumber⟩
      have hvt : v ≠ t := by
        rintro rfl
        rw [hpc] at hc
        cases hc
      exact ⟨v,c,by rwa [State.begin,setThread_ne s _ hvt],hnumber⟩
    · exact Or.inl ⟨t,_,by rw [State.begin,setThread_self]; rfl,rfl⟩
  | exchange hpc hfree => exact hadvance (by rw [hpc]; rfl) rfl rfl rfl
  | post hpc => exact hadvance (by rw [hpc]; rfl) rfl rfl rfl
  | @get t c r hpc hfuture =>
    intro k hk
    rcases hs k hk with ⟨v,c',hc,hnumber⟩ | ⟨x,r',hmem⟩
    · by_cases hvt : v = t
      · rw [hvt,hpc] at hc
        cases hc
        exact Or.inr ⟨c.callable,r,hnumber ▸ List.mem_append_right _ List.mem_cons_self⟩
      · exact Or.inl ⟨v,c',by rwa [State.finish,setThread_ne s _ hvt],hnumber⟩
    · exact Or.inr ⟨x,r',List.mem_append_left _ hmem⟩
  | @execute t r hpc =>
    unfold State.execute
    split <;> exact hs
  | _ => exact hs

def Quits (s : State T X R) : Prop :=
  s.destroyed = true → .quit ∈ s.messages ∨ s.apartment = .draining ∨ s.apartment = .exited

omit [Fintype T] in
theorem Quits.step (hs : Quits s) (h : Move s a u) : Quits u := by
  cases h with
  | call hpc howner hopen => exact fun h => by simp [State.begin,State.setThread,hopen] at h
  | get | exchange | retry => exact hs
  | post | message => exact fun h => (hs h).imp_left (List.mem_append_left _)
  | destroy => exact fun _ => Or.inl (List.mem_append_right _ List.mem_cons_self)
  | @receive m rest hpc hm =>
    intro h
    have hquit : .quit ∈ s.messages := (hs h).resolve_right (by simp [hpc])
    rw [hm] at hquit
    rcases List.mem_cons.mp hquit with rfl | hrest
    · exact Or.inr (Or.inl rfl)
    · exact Or.inl hrest
  | load hpc | dereference hpc | clear hpc => exact fun h => Or.inl ((hs h).resolve_right (by simp [hpc]))
  | @execute t r hpc =>
    unfold State.execute
    split <;> exact fun h => Or.inl ((hs h).resolve_right (by simp [hpc]))
  | drain hpc => exact fun _ => Or.inr (Or.inl hpc)
  | exit => exact fun _ => Or.inr (Or.inr rfl)

/-- How far the thread is from its end once the quit message is posted. -/
def Apartment.toExit : Apartment T → ℕ
  | .loading => 5
  | .calling _ => 4
  | .inside _ => 3
  | .clearing => 2
  | .receiving | .draining => 1
  | .exited | .undefined => 0

def exitLeft (s : State T X R) : ℕ := 6*s.messages.length+s.apartment.toExit

omit [Fintype T] in
theorem Move.exitLeft_lt (h : Move s .apartment u) : exitLeft u < exitLeft s := by
  cases h with
  | @receive m rest hpc hm =>
    have hle : (handler m : Apartment T).toExit ≤ 5 := by cases m <;> simp [handler,Apartment.toExit]
    simp only [exitLeft,hm,List.length_cons]
    omega
  | load hpc => simp [exitLeft,hpc,Apartment.toExit]
  | @dereference task hpc =>
    have hle : (s.target task).toExit ≤ 3 := by
      unfold State.target
      split <;> simp [Apartment.toExit]
    have hcost : s.apartment.toExit = 4 := by rw [hpc]; rfl
    simp only [exitLeft]
    omega
  | clear hpc => simp [exitLeft,hpc,Apartment.toExit]
  | drain hpc hm => simp [exitLeft,hm]
  | exit hpc hm => simp [exitLeft,hpc,Apartment.toExit]

omit [Fintype T] in
theorem Inv.moves_on (hs : Inv s) (hquits : Quits s) (hdestroyed : s.destroyed = true) (hnot : s.apartment ≠ .exited) :
    (step s .apartment).isSome := by
  have hidle := hs.frames.idle (hs.frames.closed hdestroyed)
  cases hpc : s.apartment with
  | receiving =>
    have hquit : .quit ∈ s.messages := (hquits hdestroyed).resolve_right (by simp [hpc])
    obtain ⟨m,rest,hm⟩ := List.exists_cons_of_ne_nil (List.ne_nil_of_mem hquit)
    simp [step,apartmentThread,hpc,hm]
  | inside t =>
    obtain ⟨v,c,hv,-⟩ := hs.stage.at_task (by simp [hpc,Apartment.Between]) (by simp [hpc])
    rw [hidle v] at hv
    cases hv
  | undefined => exact absurd hpc hs.stage.ne_undefined
  | exited => exact absurd hpc hnot
  | draining =>
    simp only [step,apartmentThread,hpc]
    split <;> rfl
  | _ => simp [step,apartmentThread,hpc]

omit [Fintype T] in
/-- With no more messages from elsewhere the thread comes to its end. -/
theorem Inv.exits (e : Execution (step (T := T) (X := X) (R := R)) (· = .apartment)) (hs : Inv (e.state 0))
    (hquits : Quits (e.state 0)) (hdestroyed : (e.state 0).destroyed = true) (hfair : e.FairTo (· = .apartment)) :
    ∃ m, (e.state m).apartment = .exited := by
  refine e.eventually_of_fairTo (I := fun s => Inv s ∧ Quits s ∧ s.destroyed = true) (G := fun s => s.apartment = .exited)
    hfair exitLeft ⟨hs,hquits,hdestroyed⟩ ?_ ?_ ?_
  · rintro s a u rfl ⟨hs,hquits,hdestroyed⟩ hstep
    have hmove := Move.of_step hstep
    refine ⟨hs.preserved hmove,hquits.step hmove,?_⟩
    cases hmove <;> exact hdestroyed
  · rintro s a u rfl - - hstep
    exact Or.inr (Move.of_step hstep).exitLeft_lt
  · rintro s ⟨hs,hquits,hdestroyed⟩ hnot
    obtain ⟨u,hu⟩ := Option.isSome_iff_exists.mp (hs.moves_on hquits hdestroyed hnot)
    exact ⟨_,u,rfl,hu,(Move.of_step hu).exitLeft_lt⟩

/-- While no call is begun and all threads get their turns, every call that has been begun
returns the result of the one execution of its own callable; messages of others may keep
coming and exchanges may keep failing. After the destruction the thread ends if no more
messages come. -/
theorem apartment_calls_return [Nonempty R] (h : Reachable s) :
    (∀ e : Execution (step (T := T) (X := X) (R := R)) Unasked, e.state 0 = s → e.FairTo Scheduled →
      ∃ m, (∀ t, (e.state m).thread t = .idle) ∧ ∀ k < s.calls.length, ∃ x r, s.calls[k]? = some x ∧
        (k,x,r) ∈ (e.state m).returned ∧ (k,x,r) ∈ (e.state m).executed ∧ executions (e.state m) k = 1) ∧
    (s.destroyed = true → ∀ e : Execution (step (T := T) (X := X) (R := R)) (· = .apartment), e.state 0 = s →
      e.FairTo (· = .apartment) → ∃ m, (e.state m).apartment = .exited) := by
  have hinv := h.inv
  obtain ⟨hanswered,hquits⟩ : Answered s ∧ Quits s := by
    refine Reaches.invariant (I := fun s => Answered s ∧ Quits s) h ⟨fun k hk => absurd hk (Nat.not_lt_zero k),fun h => Bool.noConfusion h⟩ ?_
    rintro s a u - ⟨ha,hq⟩ hstep
    exact ⟨ha.step (.of_step hstep),hq.step (.of_step hstep)⟩
  refine ⟨?_,?_⟩
  · rintro e rfl hfair
    obtain ⟨m,hm⟩ := hinv.atRest e hfair
    obtain ⟨hi,ha,hcalls⟩ : Inv (e.state m) ∧ Answered (e.state m) ∧ (e.state m).calls = (e.state 0).calls := by
      refine (e.reaches m).invariant (I := fun s => Inv s ∧ Answered s ∧ s.calls = (e.state 0).calls) ⟨hinv,hanswered,rfl⟩ ?_
      rintro s a u hunasked ⟨hs,ha,hcalls⟩ hstep
      have hmove := Move.of_step hstep
      refine ⟨hs.preserved hmove,ha.step hmove,?_⟩
      cases hmove with
      | call => exact hunasked.elim
      | @execute t r hpc =>
        unfold State.execute
        split <;> exact hcalls
      | _ => exact hcalls
    refine ⟨m,hm,fun k hk => ?_⟩
    rw [← hcalls] at hk ⊢
    have hidle : ¬ ∃ t c, ((e.state m).thread t).call? = some c ∧ c.number = k := by
      rintro ⟨t,c,hc,-⟩
      rw [hm t] at hc
      cases hc
    obtain ⟨x,r,hmem⟩ := (ha k hk).resolve_left hidle
    have hexecuted := hi.calls.returned _ hmem
    refine ⟨x,r,hi.calls.executed _ hexecuted,hmem,hexecuted,?_⟩
    rcases hi.calls.counted k hk with ⟨hone,-⟩ | ⟨-,t,c,hc,hnumber,-⟩
    · exact hone
    · exact absurd ⟨t,c,hc,hnumber⟩ hidle
  · rintro hdestroyed e rfl hfair
    exact hinv.exits e hquits hdestroyed hfair

def secondFirst : List (Action Bool ℕ ℕ) :=
  [.callInApartment true 1 100,.message .window,.callInApartment false 2 200,.exchange false false,.exchange true false]

theorem apartment_calls_return_secondFirst : ∃ s : State Bool ℕ ℕ, s.calls = [1,2] ∧ s.returned = [] ∧
    ∀ e : Execution (step (T := Bool) (X := ℕ) (R := ℕ)) Unasked, e.state 0 = s → e.FairTo Scheduled →
      ∃ m r, (1,2,r) ∈ (e.state m).returned := by
  have hrun : (run step (initial Bool ℕ ℕ) secondFirst).isSome := rfl
  have hreach : Reachable ((run step (initial Bool ℕ ℕ) secondFirst).get hrun) :=
    Reaches.of_run (fun _ _ => trivial) (Option.some_get hrun).symm
  refine ⟨(run step (initial Bool ℕ ℕ) secondFirst).get hrun,rfl,rfl,fun e he hfair => ?_⟩
  obtain ⟨m,-,hcalls⟩ := (apartment_calls_return hreach).1 e he hfair
  obtain ⟨x,r,hx,hmem,-⟩ := hcalls 1 Nat.one_lt_two
  obtain rfl : 2 = x := Option.some.inj hx
  exact ⟨m,r,hmem⟩

end SingleThreadedApartment
end AudioOutput
