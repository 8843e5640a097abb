import AudioOutput.ThreadLocalVariable

/-!
# Ids, maps and calls in progress

What the threads need of one another: ids of their own, the map of a variable to
themselves between `acquireMap` and `releaseMap`, and calls that only running threads
are in.
-/

namespace AudioOutput
namespace ThreadLocalVariable

universe u
variable {T V A : Type u}

def Pc.Holds : Pc T V A → Prop
  | .counting | .releasing _ | .assigning _ | .releasingAgain _ => True
  | _ => False

/-- The ids given out are the threads' own, and the map has entries for them only. -/
structure Ids (s : State T V A) : Prop where
  pos : 0 < s.globallyUniqueId
  bound : ∀ t, s.id t < s.globallyUniqueId
  unique : ∀ t t', s.id t ≠ 0 → s.id t = s.id t' → t = t'
  given : ∀ t v, s.pc (t,v) ≠ .idle → s.pc (t,v) ≠ .gettingId → s.id t ≠ 0
  unused : ∀ v i, i = 0 ∨ s.globallyUniqueId ≤ i → s.map (v,i) = none

structure Exclusive (s : State T V A) : Prop where
  taken : ∀ t v, (s.pc (t,v)).Holds → s.available v = false
  one : ∀ t t' v, (s.pc (t,v)).Holds → (s.pc (t',v)).Holds → t = t'

structure Stacked (s : State T V A) : Prop where
  mem : ∀ t v, v ∈ s.stack t ↔ s.pc (t,v) ≠ .idle
  nodup : ∀ t, (s.stack t).Nodup
  running : ∀ t, s.life t ≠ .running → s.stack t = []

structure Calls (s : State T V A) : Prop where
  ids : Ids s
  exclusive : Exclusive s
  stacked : Stacked s

theorem initial_calls : Calls (initial T V A) where
  ids := by constructor <;> simp [initial]
  exclusive := by constructor <;> simp [initial,Pc.Holds]
  stacked := by constructor <;> simp [initial]

variable {s u : State T V A} {t : T} {v : V} {next : Pc T V A}

theorem Ids.key (h : Ids s) (hid : s.id t ≠ 0) {t' : T} {v' : V} (hne : (t',v') ≠ (t,v)) :
    (v',s.id t') ≠ (v,s.id t) := by
  intro heq
  obtain ⟨rfl,hsame⟩ := Prod.mk.inj heq
  exact hne (by rw [h.unique t t' hid hsame.symm])

variable [DecidableEq T] [DecidableEq V]

theorem Ids.keep (h : Ids s) (hglobal : u.globallyUniqueId = s.globallyUniqueId) (hid : u.id = s.id)
    (hpc : u.pc = Function.update s.pc (t,v) next) (hnext : next ≠ .idle → next ≠ .gettingId → s.id t ≠ 0)
    (hmap : ∀ v' i, i = 0 ∨ s.globallyUniqueId ≤ i → u.map (v',i) = none) : Ids u where
  pos := hglobal ▸ h.pos
  bound := by rw [hglobal,hid]; exact h.bound
  unique := by rw [hid]; exact h.unique
  given t' v' := by
    rw [hid,hpc]
    by_cases heq : (t',v') = (t,v)
    · obtain ⟨rfl,rfl⟩ := Prod.mk.inj heq
      rwa [Function.update_self]
    · rw [Function.update_of_ne heq]
      exact h.given t' v'
  unused := by rw [hglobal]; exact hmap

omit [DecidableEq T] in
theorem Ids.unused_update (h : Ids s) (hid : s.id t ≠ 0) (x : Option (Option (Object T V A))) (v' : V) (i : ℕ)
    (hi : i = 0 ∨ s.globallyUniqueId ≤ i) : Function.update s.map (v,s.id t) x (v',i) = none := by
  have hbound := h.bound t
  rw [Function.update_of_ne (by rintro ⟨⟩; omega)]
  exact h.unused v' i hi

omit [DecidableEq V] in
theorem Ids.getThreadId (h : Ids s) (t : T) : Ids (s.getThreadId t) ∧ (s.getThreadId t).id t ≠ 0 := by
  unfold State.getThreadId
  have hpos := h.pos
  split_ifs with hnone
  · refine ⟨⟨Nat.succ_pos _,fun t' => ?_,fun t₁ t₂ => ?_,fun t' v' hidle hgetting => ?_,
      fun v' i hi => h.unused v' i (by dsimp only at hi; omega)⟩,?_⟩
    · have hbound := h.bound t'
      dsimp only
      rw [Function.update_apply]
      split_ifs <;> omega
    · have hbound₁ := h.bound t₁
      have hbound₂ := h.bound t₂
      have hunique := h.unique t₁ t₂
      dsimp only
      rw [Function.update_apply,Function.update_apply]
      split_ifs with h₁ h₂
      · exact fun _ _ => h₁.trans h₂.symm
      · intro _ heq
        omega
      · intro _ heq
        omega
      · exact hunique
    · have hgiven := h.given t' v' hidle hgetting
      dsimp only
      rw [Function.update_apply]
      split_ifs
      · omega
      · exact hgiven
    · dsimp only
      rw [Function.update_self]
      omega
  · exact ⟨h,hnone⟩

theorem Exclusive.keep (h : Exclusive s) (havailable : u.available = s.available)
    (hpc : u.pc = Function.update s.pc (t,v) next) (hnext : next.Holds → (s.pc (t,v)).Holds) : Exclusive u := by
  have hback (t' : T) (v' : V) (hholds : (u.pc (t',v')).Holds) : (s.pc (t',v')).Holds := by
    rw [hpc] at hholds
    by_cases heq : (t',v') = (t,v)
    · rw [heq,Function.update_self] at hholds
      exact heq ▸ hnext hholds
    · rwa [Function.update_of_ne heq] at hholds
  exact ⟨fun t' v' h' => havailable ▸ h.taken t' v' (hback t' v' h'),
    fun t₁ t₂ v' h₁ h₂ => h.one t₁ t₂ v' (hback t₁ v' h₁) (hback t₂ v' h₂)⟩

theorem Exclusive.acquire (h : Exclusive s) (hfree : s.available v = true)
    (havailable : u.available = Function.update s.available v false) (hpc : u.pc = Function.update s.pc (t,v) next) :
    Exclusive u := by
  have hnobody (t' : T) (hholds : (u.pc (t',v)).Holds) : t' = t := by
    by_contra hne
    rw [hpc,Function.update_of_ne (by simp [hne])] at hholds
    exact absurd (h.taken t' v hholds) (by simp [hfree])
  have hother {t' : T} {v' : V} (hv : v' ≠ v) : u.pc (t',v') = s.pc (t',v') := by
    rw [hpc,Function.update_of_ne (by simp [hv])]
  constructor
  · intro t' v' hholds
    rw [havailable]
    by_cases hv : v' = v
    · rw [hv,Function.update_self]
    · rw [Function.update_of_ne hv]
      exact h.taken t' v' (hother hv ▸ hholds)
  · intro t₁ t₂ v' h₁ h₂
    by_cases hv : v' = v
    · subst hv
      rw [hnobody t₁ h₁,hnobody t₂ h₂]
    · exact h.one t₁ t₂ v' (hother hv ▸ h₁) (hother hv ▸ h₂)

theorem Exclusive.release (h : Exclusive s) (hheld : (s.pc (t,v)).Holds)
    (havailable : u.available = Function.update s.available v true) (hpc : u.pc = Function.update s.pc (t,v) next)
    (hnext : ¬ next.Holds) : Exclusive u := by
  have hback (t' : T) (v' : V) (hholds : (u.pc (t',v')).Holds) : v' ≠ v ∧ (s.pc (t',v')).Holds := by
    rw [hpc] at hholds
    have hne : (t',v') ≠ (t,v) := by
      intro heq
      rw [heq,Function.update_self] at hholds
      exact hnext hholds
    rw [Function.update_of_ne hne] at hholds
    refine ⟨fun hv => hne ?_,hholds⟩
    subst hv
    rw [h.one t' t v' hholds hheld]
  constructor
  · intro t' v' hholds
    obtain ⟨hv,hbefore⟩ := hback t' v' hholds
    rw [havailable,Function.update_of_ne hv]
    exact h.taken t' v' hbefore
  · exact fun t₁ t₂ v' h₁ h₂ => h.one t₁ t₂ v' (hback t₁ v' h₁).2 (hback t₂ v' h₂).2

theorem Stacked.keep (h : Stacked s) {vs : List V} (hstack : s.stack t = v :: vs) (hsame : u.stack = s.stack) (hlife : u.life = s.life)
    (hpc : u.pc = Function.update s.pc (t,v) next) (hnext : next ≠ .idle) : Stacked u where
  mem t' v' := by
    rw [hsame,hpc]
    by_cases heq : (t',v') = (t,v)
    · obtain ⟨rfl,rfl⟩ := Prod.mk.inj heq
      simp [hstack,hnext]
    · rw [Function.update_of_ne heq]
      exact h.mem t' v'
  nodup := by rw [hsame]; exact h.nodup
  running := by rw [hsame,hlife]; exact h.running

theorem Stacked.push (h : Stacked s) (hlife : s.life t = .running) (hnot : v ∉ s.stack t) :
    Stacked { s.setPc t v .gettingId with stack := Function.update s.stack t (v :: s.stack t) } where
  mem t' v' := by
    simp only [State.setPc]
    by_cases ht : t' = t
    · subst ht
      by_cases hv : v' = v
      · simp [hv]
      · rw [Function.update_self,Function.update_of_ne (by simp [hv]),List.mem_cons,or_iff_right hv]
        exact h.mem t' v'
    · rw [Function.update_of_ne ht,Function.update_of_ne (by simp [ht])]
      exact h.mem t' v'
  nodup t' := by
    by_cases ht : t' = t
    · subst ht
      simp [hnot,h.nodup t']
    · simp [Function.update_of_ne ht,h.nodup t']
  running t' hlife' := by
    have ht : t' ≠ t := by
      rintro rfl
      exact hlife' hlife
    simp only [Function.update_of_ne ht]
    exact h.running t' hlife'

theorem Stacked.pop (h : Stacked s) {vs : List V} (hstack : s.stack t = v :: vs)
    (hsame : u.stack = Function.update s.stack t (s.stack t).tail) (hlife : u.life = s.life)
    (hpc : u.pc = Function.update s.pc (t,v) .idle) : Stacked u where
  mem t' v' := by
    have hnodup := h.nodup t
    rw [hstack,List.nodup_cons] at hnodup
    rw [hsame,hpc]
    by_cases ht : t' = t
    · subst ht
      by_cases hv : v' = v
      · simp [hv,hstack,hnodup.1]
      · rw [Function.update_self,Function.update_of_ne (by simp [hv]),← h.mem t' v',hstack,List.tail_cons,
          List.mem_cons,or_iff_right hv]
    · rw [Function.update_of_ne ht,Function.update_of_ne (by simp [ht])]
      exact h.mem t' v'
  nodup t' := by
    rw [hsame]
    by_cases ht : t' = t
    · subst ht
      rw [Function.update_self]
      exact (h.nodup t').tail
    · rw [Function.update_of_ne ht]
      exact h.nodup t'
  running t' := by
    rw [hsame,hlife]
    intro hnot
    by_cases ht : t' = t
    · subst ht
      rw [Function.update_self,h.running t' hnot,List.tail_nil]
    · rw [Function.update_of_ne ht]
      exact h.running t' hnot

omit [DecidableEq V] in
theorem Stacked.setLife (h : Stacked s) (life : Life) (hstack : s.stack t = []) : Stacked (s.setLife t life) where
  mem := h.mem
  nodup := h.nodup
  running t' hnot := by
    by_cases ht : t' = t
    · exact ht ▸ hstack
    · refine h.running t' ?_
      simpa [State.setLife,Function.update_of_ne ht] using hnot

omit [DecidableEq V] in
theorem getThreadId_eq (s : State T V A) (t : T) : s.getThreadId t =
    { s with id := (s.getThreadId t).id, globallyUniqueId := (s.getThreadId t).globallyUniqueId } := by
  unfold State.getThreadId
  split_ifs <;> rfl

theorem Calls.keep (h : Calls s) {vs : List V} (hstack : s.stack t = v :: vs) (hid : s.id t ≠ 0)
    (hglobal : u.globallyUniqueId = s.globallyUniqueId) (hsame : u.id = s.id)
    (hmap : ∀ v' i, i = 0 ∨ s.globallyUniqueId ≤ i → u.map (v',i) = none)
    (hpc : u.pc = Function.update s.pc (t,v) next) (hnext : next ≠ .idle)
    (hstacks : u.stack = s.stack) (hlife : u.life = s.life) (hexclusive : Exclusive u) : Calls u where
  ids := h.ids.keep hglobal hsame hpc (fun _ _ => hid) hmap
  exclusive := hexclusive
  stacked := h.stacked.keep hstack hstacks hlife hpc hnext

omit [DecidableEq V] in
theorem Calls.setLife (h : Calls s) (life : Life) (hstack : s.stack t = []) : Calls (s.setLife t life) where
  ids := ⟨h.ids.pos,h.ids.bound,h.ids.unique,h.ids.given,h.ids.unused⟩
  exclusive := ⟨h.exclusive.taken,h.exclusive.one⟩
  stacked := h.stacked.setLife life hstack

omit [DecidableEq T] in
theorem canDereference_running (h : canDereference s t v = true) : s.life t = .running ∧ v ∉ s.stack t := by
  unfold canDereference at h
  simp only [Bool.and_eq_true,decide_eq_true_eq] at h
  exact h.1

variable [DecidableEq A] {a : Action T V A}

theorem dropReference_eq (s : State T V A) (t : T) (o : Object T V A) : s.dropReference t o =
    { s with
      useCount := (s.dropReference t o).useCount
      deleted := (s.dropReference t o).deleted
      occupied := (s.dropReference t o).occupied } := by
  unfold State.dropReference
  dsimp only
  split_ifs <;> rfl

theorem Calls.step (h : Calls s) (hm : Move s a u) : Calls u := by
  have hids := h.ids
  have hexclusive := h.exclusive
  have hstacked := h.stacked
  cases hm with
  | start hlife => exact h.setLife _ (hstacked.running _ (by simp [hlife]))
  | exit hlife hstack => exact h.setLife _ hstack
  | exited hlife => exact h.setLife _ (hstacked.running _ (by simp [hlife]))
  | spin => exact h
  | dereference hcan =>
    obtain ⟨hlife,hnot⟩ := canDereference_running hcan
    exact ⟨hids.keep rfl rfl rfl (fun _ hne => absurd rfl hne) hids.unused,hexclusive.keep rfl rfl False.elim,
      hstacked.push hlife hnot⟩
  | @getId t v vs hstack hpc =>
    obtain ⟨hids',hid⟩ := hids.getThreadId t
    have hpc' : ((s.getThreadId t).setPc t v .acquiring).pc = Function.update s.pc (t,v) .acquiring := by
      rw [getThreadId_eq]
      rfl
    refine ⟨hids'.keep rfl rfl rfl (fun _ _ => hid) hids'.unused,hexclusive.keep ?_ hpc' False.elim,
      hstacked.keep hstack ?_ ?_ hpc' (by simp)⟩
    all_goals
      rw [getThreadId_eq]
      rfl
  | @acquire t v _ hstack hpc hfree | @acquireAgain t v _ _ hstack hpc hfree =>
    have hid := hids.given t v (by simp [hpc]) (by simp [hpc])
    exact h.keep hstack hid rfl rfl hids.unused rfl (by simp) rfl rfl (hexclusive.acquire hfree rfl rfl)
  | @count t v _ hstack hpc =>
    have hid := hids.given t v (by simp [hpc]) (by simp [hpc])
    refine h.keep hstack hid rfl rfl (hids.unused_update hid _) rfl (by simp) rfl rfl (hexclusive.keep rfl rfl fun _ => ?_)
    rw [hpc]
    trivial
  | @assign t v _ _ hstack hpc =>
    have hid := hids.given t v (by simp [hpc]) (by simp [hpc])
    refine h.keep hstack hid rfl rfl (hids.unused_update hid _) rfl (by simp) rfl rfl (hexclusive.keep rfl rfl fun _ => ?_)
    rw [hpc]
    trivial
  | @release t v _ _ hstack hpc | @releaseAgain t v _ _ hstack hpc =>
    have hid := hids.given t v (by simp [hpc]) (by simp [hpc])
    have hheld : (s.pc (t,v)).Holds := by rw [hpc]; trivial
    exact h.keep hstack hid rfl rfl hids.unused rfl (by simp) rfl rfl (hexclusive.release hheld rfl rfl not_false)
  | @create t v _ _ hstack hpc | @lock t v _ _ hstack hpc | @construct t v _ _ hstack hpc | @store t v _ _ hstack hpc =>
    have hid := hids.given t v (by simp [hpc]) (by simp [hpc])
    exact h.keep hstack hid rfl rfl hids.unused rfl (by simp) rfl rfl (hexclusive.keep rfl rfl False.elim)
  | @finish t v _ _ hstack hpc =>
    rw [dropReference_eq]
    exact ⟨hids.keep rfl rfl rfl (fun hidle => absurd rfl hidle) hids.unused,hexclusive.keep rfl rfl False.elim,
      hstacked.pop hstack rfl rfl rfl⟩
  | destroy hlife hlist =>
    rw [dropReference_eq]
    exact ⟨⟨hids.pos,hids.bound,hids.unique,hids.given,hids.unused⟩,⟨hexclusive.taken,hexclusive.one⟩,
      ⟨hstacked.mem,hstacked.nodup,hstacked.running⟩⟩

end ThreadLocalVariable
end AudioOutput
