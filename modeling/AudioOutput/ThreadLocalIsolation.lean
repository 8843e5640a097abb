import AudioOutput.ThreadLocalCalls
import AudioOutput.ThreadLocalSlot

/-!
# Threads do not share

The slots of the whole system move as slots do on their own: no step concerns a slot
other than those of its thread, and a call none but that of its variable. It takes the
counts of the control blocks to see that the deleter is called when the thread exits
and no earlier.
-/

namespace AudioOutput
namespace ThreadLocalVariable

universe u
variable {T V A : Type u} [DecidableEq T] [DecidableEq V]

def State.slot (s : State T V A) (t : T) (v : V) : Slot T V A where
  life := s.life t
  made := s.made (t,v)
  entry := s.map (v,s.id t)
  pc := s.pc (t,v)
  strong := (s.localStrongReferences t).filter fun o => o.var = v
  created := s.created.filter fun o => (o.thread,o.var) = (t,v)
  deleted := s.deleted.filter fun d => (d.2.thread,d.2.var) = (t,v)
  yielded := (s.yielded.filter fun y => y.1 = (t,v)).map Prod.snd

def Slotted (s : State T V A) : Prop := ∀ t v, Slot.Phase t v (s.slot t v)

variable {s u : State T V A} {t : T} {v : V} {next : Pc T V A}

theorem Slotted.of_call (h : Slotted s) (hself : Slot.Step t v (s.slot t v) (u.slot t v))
    (hother : ∀ t' v', (t',v') ≠ (t,v) → u.slot t' v' = s.slot t' v') : Slotted u := by
  intro t' v'
  by_cases heq : (t',v') = (t,v)
  · obtain ⟨rfl,rfl⟩ := Prod.mk.inj heq
    exact (h t' v').step hself
  · rw [hother t' v' heq]
    exact h t' v'

theorem Slotted.of_thread (h : Slotted s) (hself : ∀ v, Slot.Step t v (s.slot t v) (u.slot t v) ∨ u.slot t v = s.slot t v)
    (hother : ∀ t' v', t' ≠ t → u.slot t' v' = s.slot t' v') : Slotted u := by
  intro t' v'
  by_cases heq : t' = t
  · subst heq
    rcases hself v' with hstep | hsame
    · exact (h t' v').step hstep
    · rw [hsame]
      exact h t' v'
  · rw [hother t' v' heq]
    exact h t' v'

theorem slot_setPc (s : State T V A) (t : T) (v : V) (pc : Pc T V A) :
    (s.setPc t v pc).slot t v = { s.slot t v with pc := pc } := by
  simp [State.slot,State.setPc]

theorem slot_setPc_other (s : State T V A) (pc : Pc T V A) {t' : T} {v' : V} (hne : (t',v') ≠ (t,v)) :
    (s.setPc t v pc).slot t' v' = s.slot t' v' := by
  simp only [State.slot,State.setPc,Function.update_of_ne hne]

theorem Ids.slot_getThreadId (h : Ids s) (t t' : T) (v' : V) : (s.getThreadId t).slot t' v' = s.slot t' v' := by
  unfold State.getThreadId
  split_ifs with hnone
  · have hentry : s.map (v',Function.update s.id t s.globallyUniqueId t') = s.map (v',s.id t') := by
      by_cases ht : t' = t
      · rw [ht,Function.update_self,hnone,h.unused v' _ (.inr le_rfl),h.unused v' _ (.inl rfl)]
      · rw [Function.update_of_ne ht]
    simp only [State.slot,hentry]
  · rfl

theorem Slotted.of_pc (h : Slotted s) (hu : ∀ t' v', u.slot t' v' = (s.setPc t v next).slot t' v')
    (hstep : Slot.Step t v (s.slot t v) { s.slot t v with pc := next }) : Slotted u := by
  refine h.of_call (t := t) (v := v) ?_ fun t' v' hne => ?_
  · rw [hu,slot_setPc]
    exact hstep
  · rw [hu,slot_setPc_other s next hne]

theorem Slotted.of_map (h : Slotted s) (hids : Ids s) (hid : s.id t ≠ 0) (x : Option (Option (Object T V A)))
    (hstep : Slot.Step t v (s.slot t v) { s.slot t v with pc := next, entry := x }) :
    Slotted { s.setPc t v next with map := Function.update s.map (v,s.id t) x } := by
  refine h.of_call (t := t) (v := v) ?_ fun t' v' hne => ?_
  · simp only [State.slot,State.setPc,Function.update_self]
    exact hstep
  · simp only [State.slot,State.setPc,Function.update_of_ne hne,Function.update_of_ne (hids.key hid hne)]

theorem Slotted.of_life (h : Slotted s) (life : Life)
    (hstep : ∀ v, Slot.Step t v (s.slot t v) { s.slot t v with life := life }) : Slotted (s.setLife t life) := by
  refine h.of_thread (t := t) (fun v => .inl ?_) fun t' v' ht => ?_
  · have hslot : (s.setLife t life).slot t v = { s.slot t v with life := life } := by simp [State.slot,State.setLife]
    exact hslot ▸ hstep v
  · simp [State.slot,State.setLife,Function.update_of_ne ht]

variable [DecidableEq A] {o : Object T V A}

def Pc.refs (o : Object T V A) : Pc T V A → ℕ
  | .storing strong | .acquiringAgain strong | .assigning strong | .releasingAgain strong | .returning strong =>
    if strong = o then 1 else 0
  | _ => 0

def Counted (s : State T V A) : Prop :=
  ∀ o, s.useCount o = (s.localStrongReferences o.thread).count o + (s.pc (o.thread,o.var)).refs o

structure Apart (s : State T V A) : Prop where
  occupied : ∀ o, s.useCount o ≠ 0 → s.occupied o.pointer = true
  distinct : ∀ o o', s.useCount o ≠ 0 → s.useCount o' ≠ 0 → o.pointer = o'.pointer → o = o'

theorem Counted.keep (h : Counted s) (hcount : u.useCount = s.useCount)
    (hlists : u.localStrongReferences = s.localStrongReferences) (hpc : u.pc = Function.update s.pc (t,v) next)
    (hrefs : ∀ o, next.refs o = (s.pc (t,v)).refs o) : Counted u := by
  intro o
  rw [hcount,hlists,h o,hpc]
  by_cases heq : (o.thread,o.var) = (t,v)
  · rw [heq,Function.update_self,hrefs]
  · rw [Function.update_of_ne heq]

theorem Counted.touch (h : Counted s) (ho : (o.thread,o.var) = (t,v)) (hpc : u.pc = Function.update s.pc (t,v) next)
    (hcount : ∀ p ≠ o, u.useCount p = s.useCount p)
    (hlists : ∀ p ≠ o, (u.localStrongReferences p.thread).count p = (s.localStrongReferences p.thread).count p)
    (hrefs : ∀ p ≠ o, next.refs p = (s.pc (t,v)).refs p)
    (hself : u.useCount o = (u.localStrongReferences t).count o + next.refs o) : Counted u := by
  intro p
  rw [hpc]
  by_cases hp : p = o
  · subst hp
    obtain ⟨rfl,rfl⟩ := Prod.mk.inj ho
    rw [hself,Function.update_self]
  · rw [hcount p hp,hlists p hp,h p]
    by_cases heq : (p.thread,p.var) = (t,v)
    · rw [heq,Function.update_self,hrefs p hp]
    · rw [Function.update_of_ne heq]

theorem count_update {list : List (Object T V A)} {p : Object T V A} (h : list.count p = (s.localStrongReferences t).count p) :
    (Function.update s.localStrongReferences t list p.thread).count p = (s.localStrongReferences p.thread).count p := by
  by_cases ht : p.thread = t
  · rw [ht,Function.update_self,h]
  · rw [Function.update_of_ne ht]

theorem dropReference_keeps (t : T) (h : 1 < s.useCount o) :
    s.dropReference t o = { s with useCount := Function.update s.useCount o (s.useCount o-1) } := by
  have hcount : s.useCount o-1 ≠ 0 := by omega
  simp only [State.dropReference,if_neg hcount]

theorem dropReference_last (t : T) (h : s.useCount o = 1) :
    s.dropReference t o = { s with
      useCount := Function.update s.useCount o 0
      deleted := s.deleted ++ [(t,o)]
      occupied := Function.update s.occupied o.pointer false } := by
  simp only [State.dropReference,h,Nat.sub_self,if_true]

theorem count_slot (s : State T V A) (t : T) (o : Object T V A) :
    (s.slot t o.var).strong.count o = (s.localStrongReferences t).count o :=
  List.count_filter (by simp)

theorem Slotted.count_eq_one (h : Slotted s) (ho : o ∈ s.localStrongReferences t) :
    o.thread = t ∧ (s.localStrongReferences t).count o = 1 := by
  have hmem : o ∈ (s.slot t o.var).strong := List.mem_filter.mpr ⟨ho,by simp⟩
  obtain ⟨⟨pointer,hobject⟩,hstrong⟩ := (h t o.var).of_mem_strong hmem
  refine ⟨by rw [hobject]; rfl,?_⟩
  rw [← count_slot,hstrong]
  simp

/-- The objects of a call are found by its own thread and variable. -/
theorem Slotted.found (h : Slotted s) (hpc : s.pc (t,v) = .locking (some (some o)) ∨ s.pc (t,v) = .returning o) :
    (o.thread,o.var) = (t,v) ∧ (s.localStrongReferences t).count o = 1 := by
  obtain ⟨⟨pointer,hobject⟩,hstrong⟩ := (h t v).of_found hpc
  have hvar : o.var = v := by rw [hobject]; rfl
  refine ⟨by rw [hobject]; rfl,?_⟩
  rw [← count_slot,hvar,hstrong]
  simp

omit [DecidableEq T] [DecidableEq V] [DecidableEq A] in
theorem Apart.keep (h : Apart s) (hlive : ∀ o, u.useCount o ≠ 0 → s.useCount o ≠ 0) (hoccupied : u.occupied = s.occupied) :
    Apart u where
  occupied o ho := by rw [hoccupied]; exact h.occupied o (hlive o ho)
  distinct o o' ho ho' := h.distinct o o' (hlive o ho) (hlive o' ho')

/-- A new object is where no other is. -/
theorem Apart.add (h : Apart s) (hnew : s.occupied o.pointer = false)
    (hcount : u.useCount = Function.update s.useCount o 1)
    (hoccupied : u.occupied = Function.update s.occupied o.pointer true) : Apart u := by
  have hold (p : Object T V A) (hp : p ≠ o) (hlive : u.useCount p ≠ 0) : s.useCount p ≠ 0 ∧ p.pointer ≠ o.pointer := by
    rw [hcount,Function.update_of_ne hp] at hlive
    refine ⟨hlive,fun heq => ?_⟩
    have htaken := h.occupied p hlive
    rw [heq,hnew] at htaken
    cases htaken
  constructor
  · intro p hlive
    rw [hoccupied]
    by_cases hp : p = o
    · rw [hp,Function.update_self]
    · rw [Function.update_of_ne (hold p hp hlive).2]
      exact h.occupied p (hold p hp hlive).1
  · intro p q hp hq heq
    by_cases hpo : p = o
    · by_cases hqo : q = o
      · rw [hpo,hqo]
      · rw [hpo] at heq
        exact absurd heq.symm (hold q hqo hq).2
    · by_cases hqo : q = o
      · rw [hqo] at heq
        exact absurd heq (hold p hpo hp).2
      · exact h.distinct p q (hold p hpo hp).1 (hold q hqo hq).1 heq

/-- The address of an object that is gone is free again. -/
theorem Apart.remove (h : Apart s) (hlive : s.useCount o ≠ 0) (hcount : u.useCount = Function.update s.useCount o 0)
    (hoccupied : u.occupied = Function.update s.occupied o.pointer false) : Apart u := by
  have hold (p : Object T V A) (hp : u.useCount p ≠ 0) : s.useCount p ≠ 0 ∧ p ≠ o := by
    rw [hcount] at hp
    have hne : p ≠ o := by
      rintro rfl
      simp at hp
    rw [Function.update_of_ne hne] at hp
    exact ⟨hp,hne⟩
  constructor
  · intro p hp
    obtain ⟨hbefore,hne⟩ := hold p hp
    rw [hoccupied,Function.update_of_ne fun heq => hne (h.distinct p o hbefore hlive heq)]
    exact h.occupied p hbefore
  · exact fun p q hp hq => h.distinct p q (hold p hp).1 (hold q hq).1

structure Inv (s : State T V A) : Prop where
  calls : Calls s
  counted : Counted s
  slotted : Slotted s
  apart : Apart s
  emptied : ∀ t, s.life t = .exited → s.localStrongReferences t = []

theorem initial_inv : Inv (initial T V A) where
  calls := initial_calls
  counted o := by simp [initial,Pc.refs]
  slotted t v := .unmade rfl ⟨rfl,rfl,rfl,rfl,rfl⟩ trivial
  apart := ⟨fun o h => absurd rfl h,fun o o' h => absurd rfl h⟩
  emptied _ _ := rfl

theorem Inv.idle (h : Inv s) (hcan : canDereference s t v = true) : s.pc (t,v) = .idle := by
  by_contra hne
  exact (canDereference_running hcan).2 ((h.calls.stacked.mem t v).mpr hne)

/-- The reference that a call returns is not the only one. -/
theorem Inv.returning (h : Inv s) (hpc : s.pc (t,v) = .returning o) :
    (o.thread,o.var) = (t,v) ∧ (s.localStrongReferences t).count o = 1 ∧ s.useCount o = 2 := by
  obtain ⟨ho,hone⟩ := h.slotted.found (.inr hpc)
  refine ⟨ho,hone,?_⟩
  rw [h.counted o,ho,hpc,(Prod.mk.inj ho).1,hone]
  simp [Pc.refs]

/-- The reference that an exiting thread destroys is the only one. -/
theorem Inv.last (h : Inv s) (hlife : s.life t = .exiting) (ho : o ∈ s.localStrongReferences t) :
    o.thread = t ∧ (s.localStrongReferences t).count o = 1 ∧ s.pc (t,o.var) = .idle ∧ s.useCount o = 1 := by
  obtain ⟨rfl,hone⟩ := h.slotted.count_eq_one ho
  have hidle : s.pc (o.thread,o.var) = .idle := by
    by_contra hne
    have hmem := (h.calls.stacked.mem _ _).mpr hne
    rw [h.calls.stacked.running o.thread (by simp [hlife])] at hmem
    cases hmem
  exact ⟨rfl,hone,hidle,by rw [h.counted o,hone,hidle]; rfl⟩

variable {a : Action T V A}

theorem Inv.counted_step (h : Inv s) (hm : Move s a u) : Counted u := by
  have hcounted := h.counted
  cases hm with
  | start | exit | exited | spin => exact hcounted
  | dereference hcan =>
    have hidle := h.idle hcan
    exact hcounted.keep rfl rfl rfl fun o => by rw [hidle]; rfl
  | getId hstack hpc =>
    rw [getThreadId_eq]
    exact hcounted.keep rfl rfl rfl fun o => by rw [hpc]; rfl
  | acquire hstack hpc | acquireAgain hstack hpc | count hstack hpc | release hstack hpc | create hstack hpc
  | assign hstack hpc | releaseAgain hstack hpc =>
    exact hcounted.keep rfl rfl rfl fun o => by rw [hpc]; rfl
  | @lock t v _ o hstack hpc =>
    obtain ⟨ho,hone⟩ := h.slotted.found (.inl hpc)
    refine hcounted.touch ho rfl (fun p hp => Function.update_of_ne hp ..) (fun _ _ => rfl) (fun p hp => ?_) ?_
    · simp [hpc,Pc.refs,hp.symm]
    · have hbefore := hcounted o
      rw [ho,hpc,(Prod.mk.inj ho).1] at hbefore
      simp only [State.addReference,State.setPc,Function.update_self,hbefore]
      simp [Pc.refs]
  | @construct t v _ pointer hstack hpc =>
    have hnone : (s.localStrongReferences t).count ⟨v,t,s.made (t,v),pointer⟩ = 0 := by
      have hstrong : (s.slot t v).strong = [] := (h.slotted t v).of_creating hpc
      rw [← count_slot,hstrong,List.count_nil]
    refine hcounted.touch (o := ⟨v,t,s.made (t,v),pointer⟩) rfl rfl (fun p hp => Function.update_of_ne hp ..)
      (fun _ _ => rfl) (fun p hp => ?_) ?_
    · simp [hpc,Pc.refs,hp.symm]
    · simp [State.wrap,State.setPc,hnone,Pc.refs]
  | @store t v _ o hstack hpc =>
    obtain ⟨pointer,hobject⟩ := (h.slotted t v).of_storing hpc
    have ho : (o.thread,o.var) = (t,v) := by rw [hobject]; rfl
    refine hcounted.touch ho rfl (fun p hp => Function.update_of_ne hp ..) (fun p hp => count_update ?_)
      (fun p hp => ?_) ?_
    · simp [List.count_append,hp.symm]
    · simp [hpc,Pc.refs,hp.symm]
    · have hbefore := hcounted o
      rw [ho,hpc,(Prod.mk.inj ho).1] at hbefore
      simp only [State.addReference,State.setPc,Function.update_self,hbefore]
      simp [Pc.refs,List.count_append]
  | @finish t v _ o hstack hpc =>
    obtain ⟨ho,hone,hcount⟩ := h.returning hpc
    rw [dropReference_keeps t (by omega)]
    refine hcounted.touch ho rfl (fun p hp => Function.update_of_ne hp ..) (fun _ _ => rfl) (fun p hp => ?_) ?_
    · simp [hpc,Pc.refs,hp.symm]
    · simp [State.setPc,hcount,hone,Pc.refs]
  | @destroy t o rest hlife hlist =>
    obtain ⟨ht,hone,hidle,hcount⟩ := h.last hlife (by rw [hlist]; exact List.mem_cons_self)
    rw [hlist] at hone
    rw [dropReference_last t hcount]
    have hpc : s.pc = Function.update s.pc (t,o.var) (s.pc (t,o.var)) := (Function.update_eq_self ..).symm
    refine hcounted.touch (by rw [ht]) hpc
      (fun p hp => Function.update_of_ne hp ..) (fun p hp => count_update ?_) (fun _ _ => rfl) ?_
    · rw [hlist,List.count_cons_of_ne hp.symm]
    · have hrest : rest.count o = 0 := by simpa using hone
      simp [hidle,Pc.refs,hrest]

theorem slot_wrap (s : State T V A) (t : T) (v : V) (pointer : A) :
    (s.wrap t v pointer).slot t v = { s.slot t v with
      pc := .storing ⟨v,t,(s.slot t v).made,pointer⟩
      created := (s.slot t v).created ++ [⟨v,t,(s.slot t v).made,pointer⟩] } := by
  simp [State.slot,State.wrap,State.setPc,List.filter_append]

theorem slot_wrap_other (s : State T V A) (pointer : A) {t' : T} {v' : V} (hne : (t',v') ≠ (t,v)) :
    (s.wrap t v pointer).slot t' v' = s.slot t' v' := by
  have hnot : ¬(t = t' ∧ v = v') := by
    rintro ⟨rfl,rfl⟩
    exact hne rfl
  simp [State.slot,State.wrap,State.setPc,Function.update_of_ne hne,List.filter_append,hnot]

theorem Inv.slotted_step (h : Inv s) (hm : Move s a u) : Slotted u := by
  have hslotted := h.slotted
  have hids := h.calls.ids
  cases hm with
  | spin => exact hslotted
  | start hlife => exact hslotted.of_life _ fun v => .start hlife
  | exit hlife hstack =>
    refine hslotted.of_life _ fun v => .exit hlife ?_
    by_contra hne
    have hmem := (h.calls.stacked.mem _ v).mpr hne
    rw [hstack] at hmem
    cases hmem
  | exited hlife hlist =>
    refine hslotted.of_life _ fun v => .exited hlife ?_
    simp [State.slot,hlist]
  | dereference hcan =>
    exact hslotted.of_pc (fun _ _ => rfl) (.dereference (canDereference_running hcan).1 (h.idle hcan))
  | @getId t v _ hstack hpc =>
    have hsame : Slotted (s.getThreadId t) := fun t' v' => by
      rw [hids.slot_getThreadId]
      exact hslotted t' v'
    exact hsame.of_pc (fun _ _ => rfl) (.getId (by rw [hids.slot_getThreadId]; exact hpc))
  | acquire hstack hpc => exact hslotted.of_pc (fun _ _ => rfl) (.acquire hpc)
  | acquireAgain hstack hpc => exact hslotted.of_pc (fun _ _ => rfl) (.acquireAgain hpc)
  | release hstack hpc => exact hslotted.of_pc (fun _ _ => rfl) (.release hpc)
  | releaseAgain hstack hpc => exact hslotted.of_pc (fun _ _ => rfl) (.releaseAgain hpc)
  | lock hstack hpc => exact hslotted.of_pc (fun _ _ => rfl) (.lock hpc)
  | @count t v _ hstack hpc =>
    exact hslotted.of_map hids (hids.given t v (by simp [hpc]) (by simp [hpc])) _ (.count hpc)
  | @assign t v _ o hstack hpc =>
    exact hslotted.of_map hids (hids.given t v (by simp [hpc]) (by simp [hpc])) _ (.assign hpc)
  | @create t v _ had hstack hpc hdead =>
    have hgone (o : Object T V A) (ho : had = some (some o)) : o ∉ (s.slot t v).strong := by
      intro hmem
      obtain ⟨hlist,hvar⟩ := List.mem_filter.mp hmem
      obtain ⟨rfl,hone⟩ := hslotted.count_eq_one hlist
      have hcount := h.counted o
      rw [hdead o ho,hone] at hcount
      omega
    refine hslotted.of_call (t := t) (v := v) ?_ fun t' v' hne => ?_
    · simp only [State.slot,State.create,State.setPc,Function.update_self]
      exact .create hpc hgone
    · simp only [State.slot,State.create,State.setPc,Function.update_of_ne hne]
  | @construct t v _ pointer hstack hpc =>
    refine hslotted.of_call (t := t) (v := v) ?_ fun t' v' hne => slot_wrap_other s pointer hne
    rw [slot_wrap]
    exact .construct hpc
  | @store t v _ o hstack hpc =>
    obtain ⟨pointer,hobject⟩ := (h.slotted t v).of_storing hpc
    have hvar : o.var = v := by rw [hobject]; rfl
    refine hslotted.of_call (t := t) (v := v) ?_ fun t' v' hne => ?_
    · have hlist : (s.localStrongReferences t ++ [o]).filter (fun p => p.var = v) = (s.slot t v).strong ++ [o] := by
        simp [State.slot,List.filter_append,hvar]
      simp only [State.slot,State.setPc,State.addReference,Function.update_self,hlist]
      exact .store hpc
    · have hlist : (Function.update s.localStrongReferences t (s.localStrongReferences t ++ [o]) t').filter
          (fun p => p.var = v') = (s.slot t' v').strong := by
        by_cases ht : t' = t
        · have hv : v ≠ v' := fun hv => hne (by rw [ht,hv])
          simp [State.slot,ht,List.filter_append,hvar,hv]
        · rw [Function.update_of_ne ht]
          rfl
      simp only [State.slot,State.setPc,State.addReference,Function.update_of_ne hne,hlist]
  | @finish t v _ o hstack hpc =>
    obtain ⟨-,-,hcount⟩ := h.returning hpc
    rw [dropReference_keeps t (by omega)]
    refine hslotted.of_call (t := t) (v := v) ?_ fun t' v' hne => ?_
    · have hyielded : ((s.yielded ++ [((t,v),o.pointer)]).filter fun y => y.1 = (t,v)).map Prod.snd =
          (s.slot t v).yielded ++ [o.pointer] := by
        simp [State.slot,List.filter_append]
      simp only [State.slot,State.setPc,Function.update_self,hyielded]
      exact .finish hpc
    · have hyielded : ((s.yielded ++ [((t,v),o.pointer)]).filter fun y => y.1 = (t',v')).map Prod.snd =
          (s.slot t' v').yielded := by
        simp [State.slot,List.filter_append,hne.symm]
      simp only [State.slot,State.setPc,Function.update_of_ne hne,hyielded]
  | @destroy t o rest hlife hlist =>
    obtain ⟨ht,-,hidle,hcount⟩ := h.last hlife (by rw [hlist]; exact List.mem_cons_self)
    rw [dropReference_last t hcount]
    refine hslotted.of_call (t := t) (v := o.var) ?_ fun t' v' hne => ?_
    · have hstrong : (s.slot t o.var).strong = o :: rest.filter fun p => p.var = o.var := by simp [State.slot,hlist]
      have hdeleted : (s.deleted ++ [(t,o)]).filter (fun d => (d.2.thread,d.2.var) = (t,o.var)) =
          (s.slot t o.var).deleted ++ [(t,o)] := by
        simp [State.slot,List.filter_append,ht]
      simp only [State.slot,Function.update_self,hdeleted]
      exact .destroy hlife hidle hstrong
    · have hstrong : (Function.update s.localStrongReferences t rest t').filter (fun p => p.var = v') =
          (s.slot t' v').strong := by
        by_cases ht' : t' = t
        · have hv : o.var ≠ v' := fun hv => hne (by rw [ht',hv])
          simp [State.slot,ht',hlist,hv]
        · rw [Function.update_of_ne ht']
          rfl
      have hdeleted : (s.deleted ++ [(t,o)]).filter (fun d => (d.2.thread,d.2.var) = (t',v')) = (s.slot t' v').deleted := by
        have hnot : ¬(o.thread = t' ∧ o.var = v') := fun heq => hne (by rw [← heq.1,← heq.2,ht])
        simp [State.slot,List.filter_append,hnot]
      simp only [State.slot,hstrong,hdeleted]

theorem Inv.apart_step (h : Inv s) (hm : Move s a u) : Apart u := by
  have hapart := h.apart
  have hadd {o : Object T V A} (hlive : s.useCount o ≠ 0) (p : Object T V A)
      (hp : (s.addReference o).useCount p ≠ 0) : s.useCount p ≠ 0 := by
    by_cases heq : p = o
    · exact heq ▸ hlive
    · simpa [State.addReference,Function.update_of_ne heq] using hp
  cases hm with
  | start | exit | exited | spin | dereference | acquire | acquireAgain | count | release | create | assign
  | releaseAgain => exact hapart.keep (fun _ ho => ho) rfl
  | getId hstack hpc =>
    rw [getThreadId_eq]
    exact hapart.keep (fun _ ho => ho) rfl
  | lock hstack hpc hlive => exact hapart.keep (hadd hlive) rfl
  | @store t v _ o hstack hpc =>
    obtain ⟨pointer,hobject⟩ := (h.slotted t v).of_storing hpc
    have ho : (o.thread,o.var) = (t,v) := by rw [hobject]; rfl
    have hlive : s.useCount o ≠ 0 := by
      rw [h.counted o,ho,hpc]
      simp [Pc.refs]
    exact hapart.keep (hadd hlive) rfl
  | construct hstack hpc hnew => exact hapart.add hnew rfl rfl
  | @finish t v _ o hstack hpc =>
    obtain ⟨-,-,hcount⟩ := h.returning hpc
    rw [dropReference_keeps t (by omega)]
    refine hapart.keep (fun p hp => ?_) rfl
    by_cases heq : p = o
    · rw [heq,hcount]
      decide
    · simpa [State.setPc,Function.update_of_ne heq] using hp
  | @destroy t o rest hlife hlist =>
    obtain ⟨-,-,-,hcount⟩ := h.last hlife (by rw [hlist]; exact List.mem_cons_self)
    rw [dropReference_last t hcount]
    exact hapart.remove (by omega) rfl rfl

theorem Inv.emptied_step (h : Inv s) (hm : Move s a u) (t' : T) (hexited : u.life t' = .exited) :
    u.localStrongReferences t' = [] := by
  have hemptied := h.emptied t'
  cases hm with
  | @start t hlife | @exit t hlife =>
    have ht : t' ≠ t := by
      rintro rfl
      simp [State.setLife] at hexited
    simp only [State.setLife,Function.update_of_ne ht] at hexited
    exact hemptied hexited
  | @exited t hlife hlist =>
    by_cases ht : t' = t
    · exact ht ▸ hlist
    · simp only [State.setLife,Function.update_of_ne ht] at hexited
      exact hemptied hexited
  | getId =>
    rw [getThreadId_eq] at hexited ⊢
    exact hemptied hexited
  | spin | dereference | acquire | acquireAgain | count | release | create | lock | construct | assign | releaseAgain =>
    exact hemptied hexited
  | @store t v _ o hstack hpc =>
    have ht : t' ≠ t := by
      rintro rfl
      have hnone := h.calls.stacked.running t' (by rw [show s.life t' = .exited from hexited]; simp)
      rw [hstack] at hnone
      cases hnone
    simp only [Function.update_of_ne ht]
    exact hemptied hexited
  | finish =>
    rw [dropReference_eq] at hexited ⊢
    exact hemptied hexited
  | @destroy t o rest hlife hlist =>
    rw [dropReference_eq] at hexited
    have ht : t' ≠ t := by
      rintro rfl
      cases hlife.symm.trans hexited
    simp only [Function.update_of_ne ht]
    exact hemptied hexited

theorem Inv.step (h : Inv s) (hm : Move s a u) : Inv u :=
  ⟨h.calls.step hm,h.counted_step hm,h.slotted_step hm,h.apart_step hm,h.emptied_step hm⟩

theorem reachable_inv (h : Reachable s) : Inv s :=
  h.invariant initial_inv fun _ _ _ _ hinv hs => hinv.step (.of_step hs)

/-- What each thread can rely on: one call of the creator for each variable it dereferences and
one object from it, which every dereference yields and no other running thread or variable
has; the deleter runs once, on the thread itself as it exits, and has run when it has
exited; and the map of a variable is in the hands of one thread at a time. -/
structure Isolated (s : State T V A) : Prop where
  once : ∀ t v, s.made (t,v) ≤ 1
  dereferenced : ∀ t v, s.made (t,v) = 1 → v ∈ s.stack t ∨ ∃ a, ((t,v),a) ∈ s.yielded
  yielded : ∀ t v a, ((t,v),a) ∈ s.yielded → s.made (t,v) = 1 ∧ Slot.object t v a ∈ s.created
  stable : ∀ t v a b, ((t,v),a) ∈ s.yielded → ((t,v),b) ∈ s.yielded → a = b
  created : ∀ o ∈ s.created, ∀ p ∈ s.created, (o.thread,o.var) = (p.thread,p.var) → o = p
  kept : ∀ o ∈ s.created, s.life o.thread = .running → ∀ d ∈ s.deleted, d.2 ≠ o
  apart : ∀ o ∈ s.created, ∀ p ∈ s.created, s.life o.thread = .running → s.life p.thread = .running →
    (o.thread,o.var) ≠ (p.thread,p.var) → o.pointer ≠ p.pointer
  deleted : ∀ d ∈ s.deleted, d.2 ∈ s.created ∧ d.1 = d.2.thread ∧ (s.life d.1 = .exiting ∨ s.life d.1 = .exited)
  deletedOnce : ∀ o, (s.deleted.map Prod.snd).count o ≤ 1
  finished : ∀ o ∈ s.created, s.life o.thread = .exited → (o.thread,o) ∈ s.deleted
  exclusive : ∀ t t' v, (s.pc (t,v)).Holds → (s.pc (t',v)).Holds → t = t'

omit [DecidableEq A] in
theorem mem_slot_created (ho : o ∈ s.created) : o ∈ (s.slot o.thread o.var).created :=
  List.mem_filter.mpr ⟨ho,by simp⟩

omit [DecidableEq A] in
theorem mem_slot_deleted {d : T × Object T V A} (hd : d ∈ s.deleted) : d ∈ (s.slot d.2.thread d.2.var).deleted :=
  List.mem_filter.mpr ⟨hd,by simp⟩

omit [DecidableEq A] in
theorem mem_slot_yielded {pointer : A} : pointer ∈ (s.slot t v).yielded ↔ ((t,v),pointer) ∈ s.yielded := by
  simp [State.slot]

theorem Inv.referred (h : Inv s) (ho : o ∈ s.created) (hlife : s.life o.thread = .running) : s.useCount o ≠ 0 := by
  rw [h.counted o]
  obtain ⟨-,⟨-,hstrong | hpc⟩ | ⟨-,hexit⟩⟩ := (h.slotted _ _).of_mem_created (mem_slot_created ho)
  · have hmem : o ∈ (s.slot o.thread o.var).strong := by rw [hstrong]; exact List.mem_singleton_self o
    have hpos := List.count_pos_iff.mpr (List.mem_filter.mp hmem).1
    omega
  · have hrefs : (s.pc (o.thread,o.var)).refs o = 1 := by
      rw [show s.pc (o.thread,o.var) = .storing o from hpc]
      simp [Pc.refs]
    omega
  · rcases hexit with hexit | hexit <;> cases hlife.symm.trans hexit

theorem Inv.isolated (h : Inv s) : Isolated s where
  once t v := (h.slotted t v).made_le
  dereferenced t v hmade := by
    rcases (h.slotted t v).of_made hmade with hpc | hne
    · exact .inl ((h.calls.stacked.mem t v).mpr hpc)
    · obtain ⟨a,ha⟩ := List.exists_mem_of_ne_nil _ hne
      exact .inr ⟨a,mem_slot_yielded.mp ha⟩
  yielded t v a ha := by
    obtain ⟨hmade,hcreated,-⟩ := (h.slotted t v).of_mem_yielded (mem_slot_yielded.mpr ha)
    exact ⟨hmade,(List.mem_filter.mp hcreated).1⟩
  stable t v a b ha hb :=
    ((h.slotted t v).of_mem_yielded (mem_slot_yielded.mpr hb)).2.2 a (mem_slot_yielded.mpr ha)
  created o ho p hp heq := by
    have hall := ((h.slotted _ _).of_mem_created (mem_slot_created hp)).1
    have hmem := mem_slot_created ho
    rw [(Prod.mk.inj heq).1,(Prod.mk.inj heq).2,hall] at hmem
    exact List.mem_singleton.mp hmem
  kept o ho hlife d hd heq := by
    subst heq
    obtain ⟨-,-,-,hexit⟩ := (h.slotted _ _).of_mem_deleted (mem_slot_deleted hd)
    rcases hexit with hexit | hexit <;> cases hlife.symm.trans hexit
  apart o ho p hp hlife hlife' hne heq := by
    have hsame := h.apart.distinct o p (h.referred ho hlife) (h.referred hp hlife') heq
    exact hne (by rw [hsame])
  deleted d hd := by
    obtain ⟨hthread,hcreated,-,hlife⟩ := (h.slotted _ _).of_mem_deleted (mem_slot_deleted hd)
    have hmem : d.2 ∈ (s.slot d.2.thread d.2.var).created := by rw [hcreated]; exact List.mem_singleton_self _
    rw [hthread]
    exact ⟨(List.mem_filter.mp hmem).1,rfl,hlife⟩
  deletedOnce o := by
    rw [List.count_eq_countP,List.countP_map]
    calc
      s.deleted.countP ((· == o) ∘ Prod.snd)
          ≤ s.deleted.countP fun d => (d.2.thread,d.2.var) = (o.thread,o.var) := by
            refine List.countP_mono_left fun d _ hd => ?_
            simp only [Function.comp_apply,beq_iff_eq] at hd
            simp [hd]
      _ = (s.slot o.thread o.var).deleted.length := List.countP_eq_length_filter
      _ ≤ 1 := (h.slotted _ _).deleted_le
  finished o ho hlife := by
    obtain ⟨-,⟨-,hstrong | hpc⟩ | ⟨hdeleted,-⟩⟩ := (h.slotted _ _).of_mem_created (mem_slot_created ho)
    · have hmem : o ∈ (s.slot o.thread o.var).strong := by rw [hstrong]; exact List.mem_singleton_self o
      have hlist := (List.mem_filter.mp hmem).1
      rw [h.emptied _ hlife] at hlist
      cases hlist
    · have hcall : o.var ∈ s.stack o.thread := (h.calls.stacked.mem _ _).mpr (by
        rw [show s.pc (o.thread,o.var) = .storing o from hpc]
        simp)
      rw [h.calls.stacked.running _ (by simp [hlife])] at hcall
      cases hcall
    · have hmem : (o.thread,o) ∈ (s.slot o.thread o.var).deleted := by rw [hdeleted]; exact List.mem_singleton_self _
      exact (List.mem_filter.mp hmem).1
  exclusive := h.calls.exclusive.one

/-- In every interleaving, threads are isolated. -/
theorem threads_isolated (h : Reachable s) : Isolated s := (reachable_inv h).isolated

/-- A thread that dereferences one variable twice, its creator dereferencing another one, and
exits, while a second thread dereferences the first variable before and after. -/
def nestedCreators : List (Action Bool Bool ℕ) :=
  List.flatten
    [[.start true,.dereference true false],List.replicate 5 (.advance true),
      [.start false,.dereference false false],List.replicate 5 (.advance false),
      [.dereference true true],List.replicate 5 (.advance true),
      [.construct true 5,.construct false 9],List.replicate 5 (.advance true),List.replicate 5 (.advance false),
      [.construct true 6],List.replicate 5 (.advance true),
      [.dereference true false],List.replicate 6 (.advance true),
      [.exit true,.destroy true,.destroy true,.exited true],
      [.dereference false false],List.replicate 6 (.advance false),[.exit false,.destroy false,.exited false]]

theorem threads_isolated_nestedCreators : ∃ s : State Bool Bool ℕ, Reachable s ∧
    s.yielded = [((true,true),5),((false,false),9),((true,false),6),((true,false),6),((false,false),9)] ∧
    s.deleted.length = 3 ∧ Isolated s := by
  have hrun : (Transition.run ThreadLocalVariable.step (initial Bool Bool ℕ) nestedCreators).isSome := rfl
  have hreach : Reachable _ := Transition.Reaches.of_run (fun _ _ => trivial) (Option.some_get hrun).symm
  exact ⟨_,hreach,rfl,rfl,threads_isolated hreach⟩

end ThreadLocalVariable
end AudioOutput
