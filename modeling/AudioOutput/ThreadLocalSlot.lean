import AudioOutput.ThreadLocalVariable

/-!
# One variable on one thread

What a variable is for, seen from a single thread: nothing at first, then one object
from one call of the creator, kept until the thread exits. A slot knows no other
thread, no lock and no counts; the slots of the whole system are shown to move so.
-/

namespace AudioOutput
namespace ThreadLocalVariable

universe u
variable {T V A : Type u}

/-- The entry of the map, the strong references, the history and the call in progress, as
far as they concern one variable on one thread. -/
structure Slot (T V A : Type u) where
  life : Life
  made : ℕ
  entry : Option (Option (Object T V A))
  pc : Pc T V A
  strong : List (Object T V A)
  created : List (Object T V A)
  deleted : List (T × Object T V A)
  yielded : List A

namespace Slot

/-- The moves of the slot of `v` on `t`. A look at the entry finds an object exactly while
the thread refers to it. -/
inductive Step (t : T) (v : V) (w : Slot T V A) : Slot T V A → Prop
  | start (hlife : w.life = .unstarted) : Step t v w { w with life := .running }
  | exit (hlife : w.life = .running) (hpc : w.pc = .idle) : Step t v w { w with life := .exiting }
  | exited (hlife : w.life = .exiting) (hstrong : w.strong = []) : Step t v w { w with life := .exited }
  | dereference (hlife : w.life = .running) (hpc : w.pc = .idle) : Step t v w { w with pc := .gettingId }
  | getId (hpc : w.pc = .gettingId) : Step t v w { w with pc := .acquiring }
  | acquire (hpc : w.pc = .acquiring) : Step t v w { w with pc := .counting }
  | count (hpc : w.pc = .counting) : Step t v w { w with pc := .releasing w.entry, entry := some w.entry.join }
  | release {had : Option (Option (Object T V A))} (hpc : w.pc = .releasing had) : Step t v w { w with pc := .locking had }
  | create {had : Option (Option (Object T V A))} (hpc : w.pc = .locking had)
      (hdead : ∀ o, had = some (some o) → o ∉ w.strong) : Step t v w { w with pc := .creating, made := w.made+1 }
  | lock {o : Object T V A} (hpc : w.pc = .locking (some (some o))) : Step t v w { w with pc := .returning o }
  | construct {pointer : A} (hpc : w.pc = .creating) :
      Step t v w { w with
        pc := .storing ⟨v,t,w.made,pointer⟩
        created := w.created ++ [⟨v,t,w.made,pointer⟩] }
  | store {o : Object T V A} (hpc : w.pc = .storing o) :
      Step t v w { w with pc := .acquiringAgain o, strong := w.strong ++ [o] }
  | acquireAgain {o : Object T V A} (hpc : w.pc = .acquiringAgain o) : Step t v w { w with pc := .assigning o }
  | assign {o : Object T V A} (hpc : w.pc = .assigning o) :
      Step t v w { w with pc := .releasingAgain o, entry := some (some o) }
  | releaseAgain {o : Object T V A} (hpc : w.pc = .releasingAgain o) : Step t v w { w with pc := .returning o }
  | finish {o : Object T V A} (hpc : w.pc = .returning o) :
      Step t v w { w with pc := .idle, yielded := w.yielded ++ [o.pointer] }
  | destroy {o : Object T V A} {rest : List (Object T V A)} (hlife : w.life = .exiting) (hpc : w.pc = .idle)
      (hstrong : w.strong = o :: rest) : Step t v w { w with strong := rest, deleted := w.deleted ++ [(t,o)] }

structure Bare (w : Slot T V A) : Prop where
  entry : w.entry.join = none
  strong : w.strong = []
  created : w.created = []
  deleted : w.deleted = []
  yielded : w.yielded = []

def object (t : T) (v : V) (pointer : A) : Object T V A := ⟨v,t,1,pointer⟩

def Looks (P : Option (Option (Object T V A)) → Prop) : Pc T V A → Prop
  | .idle | .gettingId | .acquiring | .counting => True
  | .releasing had | .locking had => P had
  | _ => False

inductive Phase (t : T) (v : V) (w : Slot T V A) : Prop
  | unmade (hmade : w.made = 0) (hbare : w.Bare) (hpc : Looks (·.join = none) w.pc)
  | creating (hmade : w.made = 1) (hbare : w.Bare) (hpc : w.pc = .creating)
  | constructed (pointer : A) (hmade : w.made = 1) (hentry : w.entry.join = none)
      (hcreated : w.created = [object t v pointer]) (hdeleted : w.deleted = []) (hyielded : w.yielded = [])
      (hpc : w.pc = .storing (object t v pointer) ∧ w.strong = [] ∨
        (w.pc = .acquiringAgain (object t v pointer) ∨ w.pc = .assigning (object t v pointer)) ∧
          w.strong = [object t v pointer])
  | kept (pointer : A) (hmade : w.made = 1) (hentry : w.entry = some (some (object t v pointer)))
      (hcreated : w.created = [object t v pointer]) (hdeleted : w.deleted = [])
      (hyielded : ∀ b ∈ w.yielded, b = pointer) (hstrong : w.strong = [object t v pointer])
      (hpc : Looks (· = some (some (object t v pointer))) w.pc ∧ w.yielded ≠ [] ∨
        w.pc = .releasingAgain (object t v pointer) ∨ w.pc = .returning (object t v pointer))
  | gone (pointer : A) (hmade : w.made = 1) (hlife : w.life = .exiting ∨ w.life = .exited)
      (hcreated : w.created = [object t v pointer]) (hdeleted : w.deleted = [(t,object t v pointer)])
      (hyielded : ∀ b ∈ w.yielded, b = pointer) (hstrong : w.strong = []) (hpc : w.pc = .idle)
      (hreturned : w.yielded ≠ [])

variable {t : T} {v : V} {w w' : Slot T V A}

theorem Bare.of_entry (h : Bare w) (life : Life) (made : ℕ) (pc : Pc T V A) {entry : Option (Option (Object T V A))}
    (hentry : entry.join = none) : Bare { w with life := life, made := made, pc := pc, entry := entry } :=
  ⟨hentry,h.strong,h.created,h.deleted,h.yielded⟩

theorem Phase.step_unmade (hmade : w.made = 0) (hbare : w.Bare) (hpc : Looks (·.join = none) w.pc)
    (hs : Step t v w w') : Phase t v w' := by
  have hsame (life : Life) (made : ℕ) (pc : Pc T V A) := hbare.of_entry life made pc hbare.entry
  cases hs with
  | start | exit | exited => exact .unmade hmade (hsame ..) hpc
  | dereference | getId | acquire => exact .unmade hmade (hsame ..) trivial
  | count => exact .unmade hmade (hbare.of_entry _ _ _ hbare.entry) hbare.entry
  | release hhad =>
    rw [hhad] at hpc
    exact .unmade hmade (hsame ..) hpc
  | create => exact .creating (by rw [hmade]) (hsame ..) rfl
  | destroy _ _ hstrong => cases hbare.strong.symm.trans hstrong
  | lock hhad | construct hhad | store hhad | acquireAgain hhad | assign hhad | releaseAgain hhad | finish hhad =>
    rw [hhad] at hpc
    cases hpc

theorem Phase.step_creating (hmade : w.made = 1) (hbare : w.Bare) (hpc : w.pc = .creating) (hs : Step t v w w') :
    Phase t v w' := by
  have hsame (life : Life) (made : ℕ) (pc : Pc T V A) := hbare.of_entry life made pc hbare.entry
  cases hs with
  | start | exited => exact .creating hmade (hsame ..) hpc
  | @construct pointer =>
    rw [hmade]
    exact .constructed pointer rfl hbare.entry (by rw [hbare.created]; rfl) hbare.deleted hbare.yielded
      (Or.inl ⟨rfl,hbare.strong⟩)
  | exit _ hpc' | dereference _ hpc' | destroy _ hpc' | getId hpc' | acquire hpc' | count hpc' | release hpc'
  | create hpc' | lock hpc' | store hpc' | acquireAgain hpc' | assign hpc' | releaseAgain hpc' | finish hpc' =>
    cases hpc.symm.trans hpc'

theorem Phase.step_constructed {pointer : A} (hmade : w.made = 1) (hentry : w.entry.join = none)
    (hcreated : w.created = [object t v pointer]) (hdeleted : w.deleted = []) (hyielded : w.yielded = [])
    (hpc : w.pc = .storing (object t v pointer) ∧ w.strong = [] ∨
      (w.pc = .acquiringAgain (object t v pointer) ∨ w.pc = .assigning (object t v pointer)) ∧
        w.strong = [object t v pointer])
    (hs : Step t v w w') : Phase t v w' := by
  cases hs with
  | start | exited => exact .constructed pointer hmade hentry hcreated hdeleted hyielded hpc
  | store hpc' =>
    rcases hpc with ⟨hpc,hstrong⟩ | ⟨hpc | hpc,-⟩ <;> cases hpc.symm.trans hpc'
    exact .constructed pointer hmade hentry hcreated hdeleted hyielded (Or.inr ⟨Or.inl rfl,by rw [hstrong]; rfl⟩)
  | acquireAgain hpc' =>
    rcases hpc with ⟨hpc,-⟩ | ⟨hpc | hpc,hstrong⟩ <;> cases hpc.symm.trans hpc'
    exact .constructed pointer hmade hentry hcreated hdeleted hyielded (Or.inr ⟨Or.inr rfl,hstrong⟩)
  | assign hpc' =>
    rcases hpc with ⟨hpc,-⟩ | ⟨hpc | hpc,hstrong⟩ <;> cases hpc.symm.trans hpc'
    exact .kept pointer hmade rfl hcreated hdeleted (by simp [hyielded]) hstrong (Or.inr (Or.inl rfl))
  | exit _ hpc' | dereference _ hpc' | destroy _ hpc' | getId hpc' | acquire hpc' | count hpc' | release hpc'
  | create hpc' | lock hpc' | construct hpc' | releaseAgain hpc' | finish hpc' =>
    rcases hpc with ⟨hpc,-⟩ | ⟨hpc | hpc,-⟩ <;> cases hpc.symm.trans hpc'

theorem Phase.step_kept {pointer : A} (hmade : w.made = 1) (hentry : w.entry = some (some (object t v pointer)))
    (hcreated : w.created = [object t v pointer]) (hdeleted : w.deleted = [])
    (hyielded : ∀ b ∈ w.yielded, b = pointer) (hstrong : w.strong = [object t v pointer])
    (hpc : Looks (· = some (some (object t v pointer))) w.pc ∧ w.yielded ≠ [] ∨
      w.pc = .releasingAgain (object t v pointer) ∨ w.pc = .returning (object t v pointer))
    (hs : Step t v w w') : Phase t v w' := by
  -- where the call in progress is not after the test, it has found the object or is yet to look
  have hlooks (hno : ∀ o, w.pc ≠ .releasingAgain o ∧ w.pc ≠ .returning o) :
      Looks (· = some (some (object t v pointer))) w.pc ∧ w.yielded ≠ [] :=
    hpc.resolve_right fun h => h.elim (hno _).1 (hno _).2
  cases hs with
  | start | exit => exact .kept pointer hmade hentry hcreated hdeleted hyielded hstrong hpc
  | exited _ hnone => cases hstrong.symm.trans hnone
  | dereference _ hpc' | getId hpc' | acquire hpc' =>
    have hreturned := (hlooks (by simp [hpc'])).2
    exact .kept pointer hmade hentry hcreated hdeleted hyielded hstrong (Or.inl ⟨trivial,hreturned⟩)
  | count hpc' =>
    have hreturned := (hlooks (by simp [hpc'])).2
    rw [hentry]
    exact .kept pointer hmade rfl hcreated hdeleted hyielded hstrong (Or.inl ⟨rfl,hreturned⟩)
  | release hpc' =>
    have hfound := hlooks (by simp [hpc'])
    rw [hpc'] at hfound
    exact .kept pointer hmade hentry hcreated hdeleted hyielded hstrong (Or.inl hfound)
  | create hpc' hdead =>
    have hfound := (hlooks (by simp [hpc'])).1
    rw [hpc'] at hfound
    exact absurd (by simp [hstrong]) (hdead _ hfound)
  | lock hpc' =>
    have hfound := (hlooks (by simp [hpc'])).1
    rw [hpc'] at hfound
    cases hfound
    exact .kept pointer hmade hentry hcreated hdeleted hyielded hstrong (Or.inr (Or.inr rfl))
  | releaseAgain hpc' =>
    rcases hpc with ⟨hpc,-⟩ | hpc | hpc
    · rw [hpc'] at hpc
      cases hpc
    · cases hpc.symm.trans hpc'
      exact .kept pointer hmade hentry hcreated hdeleted hyielded hstrong (Or.inr (Or.inr rfl))
    · cases hpc.symm.trans hpc'
  | finish hpc' =>
    rcases hpc with ⟨hpc,-⟩ | hpc | hpc
    · rw [hpc'] at hpc
      cases hpc
    · cases hpc.symm.trans hpc'
    · cases hpc.symm.trans hpc'
      refine .kept pointer hmade hentry hcreated hdeleted (fun b hb => ?_) hstrong (Or.inl ⟨trivial,by simp⟩)
      exact (List.mem_append.mp hb).elim (hyielded b) List.mem_singleton.mp
  | destroy hlife hpc' hlist =>
    have hreturned := (hlooks (by simp [hpc'])).2
    cases hstrong.symm.trans hlist
    exact .gone pointer hmade (Or.inl hlife) hcreated (by rw [hdeleted]; rfl) hyielded rfl hpc' hreturned
  | construct hpc' | store hpc' | acquireAgain hpc' | assign hpc' =>
    have hfound := (hlooks (by simp [hpc'])).1
    rw [hpc'] at hfound
    cases hfound

/-- Every move of a slot leads from one age to the same or the next. -/
theorem Phase.step (h : Phase t v w) (hs : Step t v w w') : Phase t v w' := by
  cases h with
  | unmade hmade hbare hpc => exact .step_unmade hmade hbare hpc hs
  | creating hmade hbare hpc => exact .step_creating hmade hbare hpc hs
  | constructed pointer hmade hentry hcreated hdeleted hyielded hpc =>
    exact .step_constructed hmade hentry hcreated hdeleted hyielded hpc hs
  | kept pointer hmade hentry hcreated hdeleted hyielded hstrong hpc =>
    exact .step_kept hmade hentry hcreated hdeleted hyielded hstrong hpc hs
  | gone pointer hmade hlife hcreated hdeleted hyielded hstrong hpc hreturned =>
    cases hs with
    | exited => exact .gone pointer hmade (Or.inr rfl) hcreated hdeleted hyielded hstrong hpc hreturned
    | destroy _ _ hlist => cases hstrong.symm.trans hlist
    | start hlife' | exit hlife' | dereference hlife' => rcases hlife with hlife | hlife <;> cases hlife.symm.trans hlife'
    | getId hpc' | acquire hpc' | count hpc' | release hpc' | create hpc' | lock hpc' | construct hpc' | store hpc'
    | acquireAgain hpc' | assign hpc' | releaseAgain hpc' | finish hpc' => cases hpc.symm.trans hpc'

variable {o : Object T V A}

theorem Phase.of_mem_strong (h : Phase t v w) (ho : o ∈ w.strong) : (∃ pointer, o = object t v pointer) ∧ w.strong = [o] := by
  cases h with
  | unmade hmade hbare hpc | creating hmade hbare hpc =>
    rw [hbare.strong] at ho
    cases ho
  | constructed pointer hmade hentry hcreated hdeleted hyielded hpc =>
    rcases hpc with ⟨-,hstrong⟩ | ⟨-,hstrong⟩
    · rw [hstrong] at ho
      cases ho
    · obtain rfl : o = object t v pointer := by simpa [hstrong] using ho
      exact ⟨⟨pointer,rfl⟩,hstrong⟩
  | kept pointer hmade hentry hcreated hdeleted hyielded hstrong hpc =>
    obtain rfl : o = object t v pointer := by simpa [hstrong] using ho
    exact ⟨⟨pointer,rfl⟩,hstrong⟩
  | gone pointer hmade hlife hcreated hdeleted hyielded hstrong hpc hreturned =>
    rw [hstrong] at ho
    cases ho

theorem Phase.of_storing (h : Phase t v w) (hpc' : w.pc = .storing o) : ∃ pointer, o = object t v pointer := by
  cases h with
  | unmade hmade hbare hpc =>
    rw [hpc'] at hpc
    cases hpc
  | constructed pointer hmade hentry hcreated hdeleted hyielded hpc =>
    rcases hpc with ⟨hpc,-⟩ | ⟨hpc | hpc,-⟩ <;> cases hpc'.symm.trans hpc
    exact ⟨pointer,rfl⟩
  | kept pointer hmade hentry hcreated hdeleted hyielded hstrong hpc =>
    rcases hpc with ⟨hpc,-⟩ | hpc | hpc
    · rw [hpc'] at hpc
      cases hpc
    · cases hpc'.symm.trans hpc
    · cases hpc'.symm.trans hpc
  | creating _ _ hpc | gone _ _ _ _ _ _ _ hpc => cases hpc'.symm.trans hpc

/-- What a call finds or returns is the own object too, and the thread refers to it. -/
theorem Phase.of_found (h : Phase t v w) (hpc' : w.pc = .locking (some (some o)) ∨ w.pc = .returning o) :
    (∃ pointer, o = object t v pointer) ∧ w.strong = [o] := by
  cases h with
  | unmade hmade hbare hpc =>
    rcases hpc' with hpc' | hpc'
    all_goals
      rw [hpc'] at hpc
      cases hpc
  | constructed pointer hmade hentry hcreated hdeleted hyielded hpc =>
    rcases hpc' with hpc' | hpc' <;> rcases hpc with ⟨hpc,-⟩ | ⟨hpc | hpc,-⟩ <;> cases hpc'.symm.trans hpc
  | kept pointer hmade hentry hcreated hdeleted hyielded hstrong hpc =>
    rcases hpc' with hpc' | hpc' <;> rcases hpc with ⟨hpc,-⟩ | hpc | hpc
    · rw [hpc'] at hpc
      cases hpc
      exact ⟨⟨pointer,rfl⟩,hstrong⟩
    · cases hpc'.symm.trans hpc
    · cases hpc'.symm.trans hpc
    · rw [hpc'] at hpc
      cases hpc
    · cases hpc'.symm.trans hpc
    · cases hpc'.symm.trans hpc
      exact ⟨⟨pointer,rfl⟩,hstrong⟩
  | creating _ _ hpc | gone _ _ _ _ _ _ _ hpc => rcases hpc' with hpc' | hpc' <;> cases hpc'.symm.trans hpc

theorem Phase.of_creating (h : Phase t v w) (hpc' : w.pc = .creating) : w.strong = [] := by
  cases h with
  | unmade _ hbare | creating _ hbare => exact hbare.strong
  | constructed pointer hmade hentry hcreated hdeleted hyielded hpc =>
    rcases hpc with ⟨hpc,-⟩ | ⟨hpc | hpc,-⟩ <;> cases hpc'.symm.trans hpc
  | kept pointer hmade hentry hcreated hdeleted hyielded hstrong hpc =>
    rcases hpc with ⟨hpc,-⟩ | hpc | hpc
    · rw [hpc'] at hpc
      cases hpc
    · cases hpc'.symm.trans hpc
    · cases hpc'.symm.trans hpc
  | gone _ _ _ _ _ _ hstrong => exact hstrong

theorem Phase.made_le (h : Phase t v w) : w.made ≤ 1 := by
  cases h with
  | unmade hmade => exact hmade.trans_le (Nat.zero_le 1)
  | creating hmade | constructed _ hmade | kept _ hmade | gone _ hmade => exact hmade.le

theorem Phase.deleted_le (h : Phase t v w) : w.deleted.length ≤ 1 := by
  cases h with
  | unmade _ hbare | creating _ hbare => simp [hbare.deleted]
  | constructed _ _ _ _ hdeleted | kept _ _ _ _ hdeleted | gone _ _ _ _ hdeleted => simp [hdeleted]

theorem Phase.of_made (h : Phase t v w) (hmade : w.made = 1) : w.pc ≠ .idle ∨ w.yielded ≠ [] := by
  cases h with
  | unmade hnone => cases hnone.symm.trans hmade
  | creating _ _ hpc => exact .inl (by simp [hpc])
  | constructed pointer _ hentry hcreated hdeleted hyielded hpc =>
    rcases hpc with ⟨hpc,-⟩ | ⟨hpc | hpc,-⟩ <;> exact .inl (by simp [hpc])
  | kept pointer _ hentry hcreated hdeleted hyielded hstrong hpc =>
    rcases hpc with ⟨-,hreturned⟩ | hpc | hpc
    · exact .inr hreturned
    · exact .inl (by simp [hpc])
    · exact .inl (by simp [hpc])
  | gone _ _ _ _ _ _ _ _ hreturned => exact .inr hreturned

theorem Phase.of_mem_yielded (h : Phase t v w) {a : A} (ha : a ∈ w.yielded) :
    w.made = 1 ∧ object t v a ∈ w.created ∧ ∀ b ∈ w.yielded, b = a := by
  cases h with
  | unmade _ hbare | creating _ hbare =>
    rw [hbare.yielded] at ha
    cases ha
  | constructed _ _ _ _ _ hyielded =>
    rw [hyielded] at ha
    cases ha
  | kept pointer hmade _ hcreated _ hyielded | gone pointer hmade _ hcreated _ hyielded =>
    obtain rfl := hyielded a ha
    exact ⟨hmade,by simp [hcreated],hyielded⟩

/-- An object that has been constructed is the only one, and is referred to until the
thread exits and destroys it. -/
theorem Phase.of_mem_created (h : Phase t v w) (ho : o ∈ w.created) : w.created = [o] ∧
    (w.deleted = [] ∧ (w.strong = [o] ∨ w.pc = .storing o) ∨
      w.deleted = [(t,o)] ∧ (w.life = .exiting ∨ w.life = .exited)) := by
  cases h with
  | unmade _ hbare | creating _ hbare =>
    rw [hbare.created] at ho
    cases ho
  | constructed pointer hmade hentry hcreated hdeleted hyielded hpc =>
    obtain rfl : o = object t v pointer := by simpa [hcreated] using ho
    exact ⟨hcreated,.inl ⟨hdeleted,hpc.elim (fun h => .inr h.1) fun h => .inl h.2⟩⟩
  | kept pointer hmade hentry hcreated hdeleted hyielded hstrong hpc =>
    obtain rfl : o = object t v pointer := by simpa [hcreated] using ho
    exact ⟨hcreated,.inl ⟨hdeleted,.inl hstrong⟩⟩
  | gone pointer hmade hlife hcreated hdeleted hyielded hstrong hpc hreturned =>
    obtain rfl : o = object t v pointer := by simpa [hcreated] using ho
    exact ⟨hcreated,.inr ⟨hdeleted,hlife⟩⟩

theorem Phase.of_mem_deleted (h : Phase t v w) {d : T × Object T V A} (hd : d ∈ w.deleted) :
    d.1 = t ∧ w.created = [d.2] ∧ w.deleted = [d] ∧ (w.life = .exiting ∨ w.life = .exited) := by
  cases h with
  | unmade _ hbare | creating _ hbare =>
    rw [hbare.deleted] at hd
    cases hd
  | constructed _ _ _ _ hdeleted | kept _ _ _ _ hdeleted =>
    rw [hdeleted] at hd
    cases hd
  | gone pointer hmade hlife hcreated hdeleted hyielded hstrong hpc hreturned =>
    obtain rfl : d = (t,object t v pointer) := by simpa [hdeleted] using hd
    exact ⟨rfl,hcreated,hdeleted,hlife⟩

end Slot
end ThreadLocalVariable
end AudioOutput
