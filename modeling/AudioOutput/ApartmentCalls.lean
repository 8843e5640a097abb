import AudioOutput.ApartmentTasks

/-!
# Each call is executed once and gets its own result

A call under way has either not been executed and has no result, or it has been
executed once and its future holds the result; a call that has returned has been
executed.
-/

namespace AudioOutput
namespace SingleThreadedApartment

open Transition

universe u
variable {T X R : Type u}

def executions (s : State T X R) (k : ℕ) : ℕ := (s.executed.map Prod.fst).count k

/-- Call `k` is under way and its task has not been executed. -/
def Unexecuted (s : State T X R) (k : ℕ) : Prop :=
  ∃ t c, (s.thread t).call? = some c ∧ c.number = k ∧ s.future t = none

structure CallsInv (s : State T X R) : Prop where
  callable : ∀ t c, (s.thread t).call? = some c → s.calls[c.number]? = some c.callable
  distinct : ∀ t t' c c', (s.thread t).call? = some c → (s.thread t').call? = some c' → c.number = c'.number → t = t'
  result : ∀ t c r, (s.thread t).call? = some c → s.future t = some r → (c.number,c.callable,r) ∈ s.executed
  counted : ∀ k < s.calls.length, executions s k = 1 ∧ ¬ Unexecuted s k ∨ executions s k = 0 ∧ Unexecuted s k
  executed : ∀ e ∈ s.executed, s.calls[e.1]? = some e.2.1
  returned : ∀ e ∈ s.returned, e ∈ s.executed

theorem initial_callsInv : CallsInv (initial T X R) := by
  constructor <;> simp [initial,Pc.call?]

/-- The calls under way, their futures and the history are the same. -/
theorem CallsInv.congr {s t : State T X R} (h : CallsInv s) (hcall : ∀ k, (t.thread k).call? = (s.thread k).call?)
    (hsame : t.future = s.future ∧ t.calls = s.calls ∧ t.executed = s.executed ∧ t.returned = s.returned) : CallsInv t := by
  obtain ⟨hfuture,hcalls,hexecuted,hreturned⟩ := hsame
  have hun (k : ℕ) : Unexecuted t k ↔ Unexecuted s k := by simp only [Unexecuted,hcall,hfuture]
  have hcount (k : ℕ) : executions t k = executions s k := by rw [executions,executions,hexecuted]
  constructor <;> simp only [hcall,hfuture,hcalls,hexecuted,hreturned,hun,hcount]
  · exact h.callable
  · exact h.distinct
  · exact h.result
  · exact h.counted
  · exact h.executed
  · exact h.returned

variable [DecidableEq T]

theorem getElem?_concat {xs : List X} {i : ℕ} {x y : X} (h : xs[i]? = some y) : (xs ++ [x])[i]? = some y := by
  rw [List.getElem?_append_left (List.getElem?_eq_some_iff.mp h).1,h]

theorem CallsInv.begin {s : State T X R} (h : CallsInv s) {t : T} (x : X) (address : ℕ) (hpc : s.thread t = .idle) :
    CallsInv (s.begin t x address) := by
  have hself : ((s.begin t x address).thread t).call? = some ⟨s.calls.length,x,address⟩ := by simp [State.begin,Pc.call?]
  have hother {k : T} (hk : k ≠ t) : (s.begin t x address).thread k = s.thread k := setThread_ne s _ hk
  have hfuture : (s.begin t x address).future t = none := Function.update_self _ _ _
  have hfuture_ne {k : T} (hk : k ≠ t) : (s.begin t x address).future k = s.future k := Function.update_of_ne hk _ _
  have hlt {k : T} {c : Call X} (hc : (s.thread k).call? = some c) : c.number < s.calls.length :=
    (List.getElem?_eq_some_iff.mp (h.callable k c hc)).1
  constructor
  case callable =>
    intro k c hc
    by_cases hk : k = t
    · rw [hk,hself] at hc
      cases hc
      exact List.getElem?_concat_length
    · rw [hother hk] at hc
      exact getElem?_concat (h.callable k c hc)
  case distinct =>
    intro k k' c c' hc hc' heq
    by_cases hk : k = t
    · by_cases hk' : k' = t
      · rw [hk,hk']
      · rw [hk,hself] at hc
        rw [hother hk'] at hc'
        cases hc
        exact absurd heq (hlt hc').ne'
    · rw [hother hk] at hc
      by_cases hk' : k' = t
      · rw [hk',hself] at hc'
        cases hc'
        exact absurd heq (hlt hc).ne
      · rw [hother hk'] at hc'
        exact h.distinct k k' c c' hc hc' heq
  case result =>
    intro k c r hc hr
    by_cases hk : k = t
    · rw [hk,hfuture] at hr
      cases hr
    · rw [hother hk] at hc
      rw [hfuture_ne hk] at hr
      exact h.result k c r hc hr
  case counted =>
    intro k hk
    have hcount : executions (s.begin t x address) k = executions s k := rfl
    rw [hcount]
    have hlength : (s.begin t x address).calls.length = s.calls.length+1 := List.length_append
    rw [hlength] at hk
    rcases Nat.lt_succ_iff_lt_or_eq.mp hk with hk | rfl
    · have hun : Unexecuted (s.begin t x address) k ↔ Unexecuted s k := by
        constructor
        · rintro ⟨k',c,hc,hnumber,hr⟩
          have hk' : k' ≠ t := by
            rintro rfl
            rw [hself] at hc
            cases hc
            exact hk.ne' hnumber
          rw [hother hk'] at hc
          rw [hfuture_ne hk'] at hr
          exact ⟨k',c,hc,hnumber,hr⟩
        · rintro ⟨k',c,hc,hnumber,hr⟩
          have hk' : k' ≠ t := by
            rintro rfl
            simp [hpc,Pc.call?] at hc
          exact ⟨k',c,by rw [hother hk']; exact hc,hnumber,by rw [hfuture_ne hk']; exact hr⟩
      rw [hun]
      exact h.counted k hk
    · refine Or.inr ⟨List.count_eq_zero.mpr fun hmem => ?_,t,_,hself,rfl,hfuture⟩
      obtain ⟨e,he,heq⟩ := List.mem_map.mp hmem
      have hold := (List.getElem?_eq_some_iff.mp (h.executed e he)).1
      omega
  case executed => exact fun e he => getElem?_concat (h.executed e he)
  case returned => exact h.returned

theorem CallsInv.execute {s : State T X R} (h : CallsInv s) (hstage : Stage s) {t : T} (hpc : s.apartment = .inside t) (r : R) :
    CallsInv (s.execute t r) := by
  obtain ⟨c,hthread,hnone,heq⟩ := hstage.execute_eq hpc r
  have hcall : (s.thread t).call? = some c := by rw [hthread]; rfl
  rw [heq]
  constructor
  case callable => exact h.callable
  case distinct => exact h.distinct
  case result =>
    intro k c' r' hc' hr'
    by_cases hk : k = t
    · subst hk
      rw [hcall] at hc'
      cases hc'
      simp only [Function.update_self,Option.some.injEq] at hr'
      rw [← hr']
      exact List.mem_append_right _ (List.mem_singleton.mpr rfl)
    · simp only [Function.update_of_ne hk] at hr'
      exact List.mem_append_left _ (h.result k c' r' hc' hr')
  case counted =>
    intro k hk
    have hold := h.counted k hk
    by_cases hkc : c.number = k
    -- this is the one execution of call `k`
    · have hun : Unexecuted s k := ⟨t,c,hcall,hkc,hnone⟩
      obtain ⟨hzero,-⟩ := hold.resolve_left fun hone => hone.2 hun
      refine Or.inl ⟨by simpa [executions,hkc] using hzero,?_⟩
      rintro ⟨k',c',hc',hnumber,hr'⟩
      obtain rfl := h.distinct k' t c' c hc' hcall (hnumber.trans hkc.symm)
      simp at hr'
    · have hcount : executions { s with
          future := Function.update s.future t (some r)
          executed := s.executed ++ [(c.number,c.callable,r)]
          apartment := .clearing } k = executions s k := by simp [executions,hkc]
      have hun : Unexecuted { s with
          future := Function.update s.future t (some r)
          executed := s.executed ++ [(c.number,c.callable,r)]
          apartment := .clearing } k ↔ Unexecuted s k := by
        constructor
        · rintro ⟨k',c',hc',hnumber,hr'⟩
          have hk' : k' ≠ t := by
            rintro rfl
            simp at hr'
          exact ⟨k',c',hc',hnumber,by simpa [hk'] using hr'⟩
        · rintro ⟨k',c',hc',hnumber,hr'⟩
          have hk' : k' ≠ t := by
            rintro rfl
            rw [hcall] at hc'
            cases hc'
            exact hkc hnumber
          exact ⟨k',c',hc',hnumber,by simpa [hk'] using hr'⟩
      rw [hcount,hun]
      exact hold
  case executed =>
    intro e he
    rcases List.mem_append.mp he with he | he
    · exact h.executed e he
    · rw [List.mem_singleton.mp he]
      exact h.callable t c hcall
  case returned => exact fun e he => List.mem_append_left _ (h.returned e he)

theorem CallsInv.finish {s : State T X R} (h : CallsInv s) {t : T} {c : Call X} {r : R} (hpc : s.thread t = .waiting c)
    (hfuture : s.future t = some r) : CallsInv (s.finish t c r) := by
  have hcall : (s.thread t).call? = some c := by rw [hpc]; rfl
  have hold {k : T} {c' : Call X} (hc : ((s.finish t c r).thread k).call? = some c') :
      k ≠ t ∧ (s.thread k).call? = some c' := by
    by_cases hk : k = t
    · simp [State.finish,hk,Pc.call?] at hc
    · have hsame : (s.finish t c r).thread k = s.thread k := setThread_ne s _ hk
      exact ⟨hk,by rw [← hsame]; exact hc⟩
  have hun (k : ℕ) : Unexecuted (s.finish t c r) k ↔ Unexecuted s k := by
    constructor
    · rintro ⟨k',c',hc',hnumber,hr'⟩
      exact ⟨k',c',(hold hc').2,hnumber,hr'⟩
    · rintro ⟨k',c',hc',hnumber,hr'⟩
      have hk' : k' ≠ t := by
        rintro rfl
        rw [hfuture] at hr'
        cases hr'
      have hsame : (s.finish t c r).thread k' = s.thread k' := setThread_ne s _ hk'
      exact ⟨k',c',by rw [hsame]; exact hc',hnumber,hr'⟩
  constructor
  case callable => exact fun k c' hc' => h.callable k c' (hold hc').2
  case distinct => exact fun k k' c₁ c₂ h₁ h₂ heq => h.distinct k k' c₁ c₂ (hold h₁).2 (hold h₂).2 heq
  case result => exact fun k c' r' hc' hr' => h.result k c' r' (hold hc').2 hr'
  case counted =>
    intro k hk
    rw [hun]
    exact h.counted k hk
  case executed => exact h.executed
  case returned =>
    intro e he
    rcases List.mem_append.mp he with he | he
    · exact h.returned e he
    · rw [List.mem_singleton.mp he]
      exact h.result t c r hcall hfuture

theorem CallsInv.step {s t : State T X R} {a : Action T X R} (h : CallsInv s) (hstage : Stage s) (hmove : Move s a t) :
    CallsInv t := by
  have hadvance {k : T} {pc : Pc X} (hcall : pc.call? = (s.thread k).call?) (j : T) :
      ((s.setThread k pc).thread j).call? = (s.thread j).call? := by
    by_cases hj : j = k
    · rw [hj,setThread_self,hcall]
    · rw [setThread_ne s pc hj]
  cases hmove with
  | call hpc howner hopen => exact h.begin _ _ hpc
  | exchange hpc hfree => exact h.congr (hadvance (by rw [hpc]; rfl)) ⟨rfl,rfl,rfl,rfl⟩
  | retry hpc => exact h
  | post hpc => exact h.congr (hadvance (by rw [hpc]; rfl)) ⟨rfl,rfl,rfl,rfl⟩
  | get hpc hfuture => exact h.finish hpc hfuture
  | execute hpc => exact h.execute hstage hpc _
  | message hm => exact h.congr (fun _ => rfl) ⟨rfl,rfl,rfl,rfl⟩
  | receive hpc hm => exact h.congr (fun _ => rfl) ⟨rfl,rfl,rfl,rfl⟩
  | load hpc => exact h.congr (fun _ => rfl) ⟨rfl,rfl,rfl,rfl⟩
  | dereference hpc => exact h.congr (fun _ => rfl) ⟨rfl,rfl,rfl,rfl⟩
  | clear hpc => exact h.congr (fun _ => rfl) ⟨rfl,rfl,rfl,rfl⟩
  | drain hpc hm => exact h.congr (fun _ => rfl) ⟨rfl,rfl,rfl,rfl⟩
  | exit hpc hm => exact h.congr (fun _ => rfl) ⟨rfl,rfl,rfl,rfl⟩
  | destroy hactive hopen => exact h.congr (fun _ => rfl) ⟨rfl,rfl,rfl,rfl⟩

structure Inv (s : State T X R) : Prop where
  stage : Stage s
  frames : FramesInv s
  calls : CallsInv s

theorem Reachable.inv {s : State T X R} (h : Reachable s) : Inv s :=
  h.invariant ⟨initial_stage,initial_framesInv,initial_callsInv⟩ fun _ _ _ _ hs hstep => by
    have hmove := Move.of_step hstep
    exact ⟨hs.stage.step hs.frames hmove,hs.frames.step hs.stage hmove,hs.calls.step hs.stage hmove⟩

def Useful (s : State T X R) : Prop :=
  (∃ t, (s.currentTask = none ∧ (step s (.exchange t false)).isSome) ∨ (step s (.post t)).isSome ∨ (step s (.get t)).isSome) ∨
    (step s .apartment).isSome ∨ ∃ r, (step s (.execute r)).isSome

/-- As long as a call is under way, something useful can be done. -/
theorem Inv.useful [Nonempty R] {s : State T X R} (h : Inv s) {t : T} {c : Call X} (hcall : (s.thread t).call? = some c) :
    Useful s := by
  cases h.stage with
  | free hs hp ht hq =>
    cases hpc : s.thread t with
    | idle => simp [hpc,Pc.call?] at hcall
    | exchanging c' => exact Or.inl ⟨t,Or.inl ⟨hs,by simp [step,hpc,hs]⟩⟩
    | posting c' => exact absurd hpc ((hq t (by simp)).1 c')
    | waiting c' =>
      obtain ⟨r,hr⟩ := Option.ne_none_iff_exists'.mp ((hq t (by simp)).2 c' hpc)
      exact Or.inl ⟨t,Or.inr (Or.inr (by simp [step,hpc,hr]))⟩
  | posting k c' hk hf hs hp ht hq => exact Or.inl ⟨k,Or.inr (Or.inl (by simp [step,hk]))⟩
  | posted k c' hk hf hs hp ht hq =>
    -- the apartment has not been destroyed, so its thread will get the message
    have hnot (hpc : s.apartment = .draining ∨ s.apartment = .exited) : False := by
      have hidle := h.frames.idle (h.frames.closed (h.frames.quitting (Or.inr hpc))) k
      rw [hk] at hidle
      cases hidle
    refine Or.inr (Or.inl ?_)
    cases hpc : s.apartment with
    | receiving =>
      cases hm : s.messages with
      | nil => simp [hm] at ht
      | cons m rest => simp [step,apartmentThread,hpc,hm]
    | draining => exact absurd (Or.inl hpc) hnot
    | exited => exact absurd (Or.inr hpc) hnot
    | _ => simp [hpc,Apartment.Between] at hp
  | handled k c' hk hf hs hp ht hq =>
    cases hpc : s.apartment with
    | loading => exact Or.inr (Or.inl (by simp [step,apartmentThread,hpc]))
    | calling task => exact Or.inr (Or.inl (by simp [step,apartmentThread,hpc]))
    | inside k' =>
      obtain ⟨r⟩ := ‹Nonempty R›
      exact Or.inr (Or.inr ⟨r,by simp [step,hpc]⟩)
    | _ => simp [hpc,Apartment.Handles] at hp
  | clearing hs hp ht hq => exact Or.inr (Or.inl (by simp [step,apartmentThread,hp]))

/-- At most one task message at a time, every dereference finds the task of a caller that
waits, every task is executed exactly once, and every call returns its own result. -/
theorem calls_run_once [Nonempty R] {s : State T X R} (h : Reachable s) :
    s.messages.count .task+(if s.apartment.working then 1 else 0) ≤ 1 ∧ s.apartment ≠ .undefined ∧
    (∀ task, s.apartment = .calling task → ∃ t c, task = some c.address ∧ s.owner c.address = some t ∧
      s.thread t = .waiting c ∧ s.future t = none) ∧
    (∀ k < s.calls.length, executions s k = 1 ∧ ¬ Unexecuted s k ∨ executions s k = 0 ∧ Unexecuted s k) ∧
    (∀ e ∈ s.returned, e ∈ s.executed ∧ s.calls[e.1]? = some e.2.1) ∧
    ∀ t c, (s.thread t).call? = some c → Useful s := by
  have hinv := h.inv
  refine ⟨hinv.stage.tasks_le,hinv.stage.ne_undefined,fun task hpc => ?_,hinv.calls.counted,
    fun e he => ⟨hinv.calls.returned e he,hinv.calls.executed e (hinv.calls.returned e he)⟩,
    fun t c hcall => hinv.useful hcall⟩
  obtain ⟨t,c,hthread,hnone,-,hp,-,-⟩ := hinv.stage.at_task (by simp [hpc,Apartment.Between]) (by simp [hpc])
  rw [hpc] at hp
  exact ⟨t,c,hp,hinv.frames.owner t c (by rw [hthread]; rfl),hthread,hnone⟩

/-- Two threads call; the first has returned and calls again, its new task where the old
one was, while the apartment's thread takes the task of the second. -/
def twoCallers : List (Action Bool ℕ ℕ) :=
  [.callInApartment true 1 100,.callInApartment false 2 200,.exchange true false,.exchange false false,
    .exchange false true,.post true,.message .window,.apartment,.apartment,.apartment,.execute 10,.get true,
    .callInApartment true 3 100,.apartment,.exchange false false,.post false,.apartment,.apartment,.apartment]

theorem calls_run_once_twoCallers : ∃ s : State Bool ℕ ℕ, run step (initial Bool ℕ ℕ) twoCallers = some s ∧
    s.returned = [(0,1,10)] ∧ ∃ t c, some 200 = some c.address ∧ s.owner c.address = some t ∧ s.thread t = .waiting c ∧
      s.future t = none := by
  have hrun : (run step (initial Bool ℕ ℕ) twoCallers).isSome := rfl
  have hreach : Reachable ((run step (initial Bool ℕ ℕ) twoCallers).get hrun) :=
    Reaches.of_run (fun _ _ => trivial) (Option.some_get hrun).symm
  exact ⟨_,(Option.some_get hrun).symm,rfl,(calls_run_once hreach).2.2.1 (some 200) rfl⟩

end SingleThreadedApartment
end AudioOutput
