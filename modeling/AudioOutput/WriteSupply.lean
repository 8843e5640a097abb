import AudioOutput.StreamFidelity

/-!
# What a call of `write` can have

The frames that the calls have stored so far and those waiting in the buffer that is
being read and in `prepared_buffers`: together they never become fewer, until the
destructor empties the queues.
-/

namespace AudioOutput
namespace OutputWorkerThread

open Transition

universe u
variable {α : Type u} {cfg : Config α}

def unused (s : State cfg) (p : Pointer) : ℕ := cfg.destinationFrames-(s.heap p).used

def readable (s : State cfg) : List Pointer := s.io.hands s.currentBuffer ++ s.preparedBuffers

def available (s : State cfg) : ℕ := ((readable s).map (unused s)).sum

@[simp] def IoPc.written : IoPc α → ℕ
  | .idle => 0
  | .acquiring w | .copying w => w.writtenTotal
  | .releasing w _ n | .signalling w n | .clearing w n | .returning w n => w.writtenTotal+n

def framesWritten (s : State cfg) : ℕ := (s.returns.map WriteReturn.written).sum+s.io.written

def supply (s : State cfg) : ℕ := framesWritten s+available s

/-- Between the end of a buffer and `current_buffer = nullptr`: what the last copy took. -/
@[simp] def IoPc.leaving : IoPc α → Option ℕ
  | .releasing _ _ n | .signalling _ n | .clearing _ n => some n
  | _ => none

/-- The buffer that is being read has frames left, and one that is given back has had
some. -/
structure Held (s : State cfg) : Prop where
  current : s.io.leaving = none → ∀ p, s.currentBuffer = some p → (s.heap p).used < cfg.destinationFrames
  taken : ∀ n, s.io.leaving = some n → 0 < n

theorem initial_held : Held (initial cfg) := by constructor <;> simp [initial]

theorem readable_inFlight {s : State cfg} {p : Pointer} (h : p ∈ readable s) : p ∈ inFlight s :=
  List.mem_append_left _ h

theorem hands_of_leaving {s : State cfg} (h : s.io.leaving = none) : s.io.hands s.currentBuffer = s.currentBuffer.toList := by
  cases hio : s.io <;> simp_all

variable [Zero α]

/-- Outside the copy nobody stores into the buffer that is being read. -/
theorem Held.keep {s t : State cfg} {a : Action α} (hh : Held s) (h : Move s a t) (hs : Ownership s)
    (hcopy : a = .io → ∀ w, s.io ≠ .copying w) (hleaving : s.io.leaving = none) {p : Pointer}
    (hp : s.currentBuffer = some p) : (t.heap p).used < cfg.destinationFrames := by
  have hmem : p ∈ s.io.hands s.currentBuffer := by
    rw [hands_of_leaving hleaving,hp]
    exact List.mem_singleton_self p
  rw [h.heap_inFlight hs (readable_inFlight (List.mem_append_left _ hmem)) fun _ => hcopy]
  exact hh.current hleaving p hp

theorem Move.held_current {s t : State cfg} {a : Action α} (h : Move s a t) (hframes : 1 ≤ cfg.destinationFrames)
    (hs : Ownership s) (hf : Fidelity s) (hh : Held s) (hleaving : t.io.leaving = none) {p : Pointer}
    (hp : t.currentBuffer = some p) : (t.heap p).used < cfg.destinationFrames := by
  have hkeep := hh.keep h hs (p := p)
  cases h with
  | acquireSome hpc hcur hq =>
    obtain rfl : _ = p := by simpa using hp
    rw [hf.fresh _ (by simp [hq])]
    exact hframes
  | @copyPart w buff hpc hcur hused =>
    obtain rfl : buff = p := by simpa [State.setHeap,hcur] using hp
    have hle := willWrite_le cfg (s.heap buff) w.count
    have hbefore := hh.current (by simp [hpc]) buff hcur
    simp only [State.setHeap,Function.update_self]
    omega
  | acquireNone hpc hcur hq => cases hp
  | acquireHeld hpc hcur => exact hkeep (by simp [hpc]) (by simp [hpc]) hp
  | copyNone hpc hcur => simp [hcur] at hp
  | copyAll hpc hcur hused => cases hleaving
  | release hpc hroom => cases hleaving
  | signal hpc => cases hleaving
  | clear hpc => cases hp
  | again hpc hn => exact hkeep (by simp [hpc]) (by simp [hpc]) hp
  | finish hpc => exact hkeep (by simp [hpc]) (by simp [hpc]) hp
  | beginWrite hpc howner hroom => exact hkeep (by simp) (by simp [hpc]) hp
  | spin => exact hh.current hleaving p hp
  | count hpc => exact hkeep (by simp) (by simpa using hleaving) (by simpa using hp)
  | _ => exact hkeep (by simp) hleaving hp

theorem Move.held_taken {s t : State cfg} {a : Action α} (h : Move s a t) (hh : Held s) {n : ℕ}
    (hleaving : t.io.leaving = some n) : 0 < n := by
  have hold := hh.taken n
  cases h with
  | @copyAll w buff hpc hcur hused =>
    have hbefore := hh.current (by simp [hpc]) buff hcur
    obtain rfl : _ = n := by simpa using hleaving
    omega
  | release hpc hroom => exact hold (by simpa [hpc] using hleaving)
  | signal hpc => exact hold (by simpa [hpc] using hleaving)
  | count hpc => exact hold (by simpa using hleaving)
  | _ => first
    | exact hold hleaving
    | cases hleaving

theorem Held.step {s t : State cfg} {a : Action α} (hh : Held s) (hframes : 1 ≤ cfg.destinationFrames)
    (hs : Ownership s) (hf : Fidelity s) (h : step s a = some t) : Held t :=
  ⟨fun hleaving _ => (step_move h).held_current hframes hs hf hh hleaving,fun _ => (step_move h).held_taken hh⟩

theorem Reachable.held {s : State cfg} (h : Reachable s) (hframes : 1 ≤ cfg.destinationFrames) : Held s := by
  have hall := Reaches.invariant (I := fun s => (Ownership s ∧ Fidelity s) ∧ Held s) h
    ⟨⟨initial_ownership,initial_fidelity⟩,initial_held⟩ fun _ _ _ _ ⟨⟨hs,hf⟩,hh⟩ hstep =>
      ⟨⟨hs.step hstep,hf.step hs hstep⟩,hh.step hframes hs hf hstep⟩
  exact hall.2

omit [Zero α] in
theorem unused_congr {s t : State cfg} {l : List Pointer} (h : ∀ p ∈ l, t.heap p = s.heap p) :
    l.map (unused t) = l.map (unused s) :=
  List.map_congr_left fun p hp => by rw [unused,unused,h p hp]

omit [Zero α] in
/-- What a copy takes out of the buffer it puts into the destination. -/
theorem Held.supply_copy {s t : State cfg} (hh : Held s) (hs : Ownership s) {w : WriteCall α} {buff : Pointer} {n : ℕ}
    (hpc : s.io = .copying w) (hcur : s.currentBuffer = some buff) (hn : n = willWrite cfg (s.heap buff) w.count)
    (hheap : t.heap = Function.update s.heap buff { s.heap buff with used := (s.heap buff).used+n })
    (hwritten : framesWritten t = framesWritten s+n) (hreadable : readable t = readable s) : supply t = supply s := by
  have hhands : s.io.hands s.currentBuffer = [buff] := by simp [hpc,hcur]
  obtain ⟨_,_,_,hprep,_⟩ := hs.io_exclusive hhands
  have hle := willWrite_le cfg (s.heap buff) w.count
  have hused := hh.current (by simp [hpc]) buff hcur
  have htail : s.preparedBuffers.map (unused t) = s.preparedBuffers.map (unused s) := by
    refine unused_congr fun p hp => ?_
    have hne : p ≠ buff := by
      rintro rfl
      exact hprep hp
    rw [hheap,Function.update_of_ne hne]
  have hhead : unused t buff+n = unused s buff := by
    simp only [unused,hheap,Function.update_self]
    omega
  rw [supply,supply,available,available,hreadable,readable,hhands,List.singleton_append,List.map_cons,List.map_cons,
    List.sum_cons,List.sum_cons,htail,hwritten]
  omega

/-- The worker adds to the supply, `write` passes on what it has, and only the
destructor takes buffers away. -/
theorem Move.supply_le {s t : State cfg} {a : Action α} (h : Move s a t) (hs : Ownership s) (hf : Fidelity s)
    (hh : Held s) (hdrain : t.owner.draining = false) : supply s ≤ supply t := by
  have hkeep (hio : a ≠ .io) (p : Pointer) (hp : p ∈ readable s) : t.heap p = s.heap p :=
    h.heap_inFlight hs (readable_inFlight hp) fun _ ha => absurd ha hio
  have hafter (hw : framesWritten t = framesWritten s) (hr : readable t = readable s)
      (hheap : ∀ p ∈ readable s, t.heap p = s.heap p) : supply s ≤ supply t := by
    rw [supply,supply,available,available,hw,hr,unused_congr hheap]
  cases h with
  | spin => exact le_rfl
  | @push cmd hpc hroom =>
    have hadd : available { s with preparedBuffers := s.preparedBuffers ++ [cmd], worker := .counting } =
        available s+unused s cmd := by
      simp only [available,readable,← List.append_assoc,List.map_append,List.sum_append,List.map_singleton,
        List.sum_singleton]
      rfl
    rw [supply,supply,hadd]
    exact Nat.add_le_add_left (Nat.le_add_right _ _) _
  | count hpc => exact hafter (by simp [framesWritten]) (by simp [readable]) (hkeep (by simp))
  | acquireNone hpc hcur hq =>
    exact hafter (by simp [framesWritten,hpc]) (by simp [readable,hpc,hcur,hq]) fun _ _ => rfl
  | acquireSome hpc hcur hq =>
    exact hafter (by simp [framesWritten,hpc]) (by simp [readable,hpc,hcur,hq]) fun _ _ => rfl
  | acquireHeld hpc hcur => exact hafter (by simp [framesWritten,hpc]) (by simp [readable,hpc]) fun _ _ => rfl
  | copyNone hpc hcur => exact hafter (by simp [framesWritten,hpc]) (by simp [readable,hpc]) fun _ _ => rfl
  | copyAll hpc hcur hused =>
    refine (hh.supply_copy hs hpc hcur rfl rfl ?_ (by simp [readable,hpc,State.setHeap])).ge
    simp [framesWritten,hpc,State.setHeap,WriteCall.copy,Nat.add_assoc]
  | copyPart hpc hcur hused =>
    refine (hh.supply_copy hs hpc hcur rfl rfl ?_ (by simp [readable,hpc,State.setHeap])).ge
    simp [framesWritten,hpc,State.setHeap,WriteCall.copy,Nat.add_assoc]
  | @release w buff n hpc hroom =>
    have hempty : unused s buff = 0 := by rw [unused,hf.emptied w buff n hpc,Nat.sub_self]
    have hsame : available s = (s.preparedBuffers.map (unused s)).sum := by
      simp [available,readable,hpc,hs.releasing w buff n hpc,hempty]
    rw [supply,hsame,framesWritten,hpc]
    exact le_rfl
  | signal hpc => exact hafter (by simp [framesWritten,hpc]) (by simp [readable,hpc]) fun _ _ => rfl
  | clear hpc => exact hafter (by simp [framesWritten,hpc]) (by simp [readable,hpc]) fun _ _ => rfl
  | again hpc hn =>
    exact hafter (by simp [framesWritten,hpc,WriteCall.advance]) (by simp [readable,hpc]) fun _ _ => rfl
  | finish hpc => exact hafter (by simp [framesWritten,hpc]) (by simp [readable,hpc]) fun _ _ => rfl
  | beginWrite hpc howner hroom =>
    exact hafter (by simp [framesWritten,hpc]) (by simp [readable,hpc]) (hkeep (by simp))
  | drainReturned hpc hq => simp [dispose,hpc] at hdrain
  | drainPrepared hpc hq => simp [dispose,hpc] at hdrain
  | _ => exact hafter rfl rfl (hkeep (by simp))

def Missed (s : State cfg) (w : WriteCall α) : Prop :=
  (s.io = .copying w ∧ s.currentBuffer = none) ∨ s.io = .returning w 0

/-- If frames are missing, it has found no buffer. -/
theorem Move.missed {s t : State cfg} {a : Action α} (h : Move s a t) (hh : Held s) {w : WriteCall α}
    (hmissed : Missed t w) (hcount : 0 < w.count) : framesWritten t = framesWritten s ∧
      (Missed s w ∨ a = .io ∧ s.io = .acquiring w ∧ s.currentBuffer = none ∧ s.preparedBuffers = []) := by
  cases h with
  | acquireNone hpc hcur hq =>
    obtain rfl : _ = w := by simpa [Missed] using hmissed
    exact ⟨by simp [framesWritten,hpc],Or.inr ⟨rfl,hpc,hcur,hq⟩⟩
  | copyNone hpc hcur =>
    obtain rfl : _ = w := by simpa [Missed] using hmissed
    exact ⟨by simp [framesWritten,hpc],Or.inl (Or.inl ⟨hpc,hcur⟩)⟩
  | @copyPart v buff hpc hcur hused =>
    -- a buffer that is being read gives something
    have hbefore := hh.current (by simp [hpc]) buff hcur
    obtain ⟨rfl,hnone⟩ : _ ∧ _ := by simpa [Missed] using hmissed
    rw [willWrite_eq_min] at hnone
    simp only [WriteCall.copy] at hcount
    omega
  | clear hpc =>
    have htaken := hh.taken _ (by rw [hpc]; rfl)
    obtain ⟨rfl,rfl⟩ : _ ∧ _ := by simpa [Missed] using hmissed
    exact absurd htaken (lt_irrefl 0)
  | acquireSome hpc hcur hq => simp [Missed] at hmissed
  | acquireHeld hpc hcur => simp [Missed,hcur] at hmissed
  | copyAll hpc hcur hused => simp [Missed] at hmissed
  | release hpc hroom => simp [Missed] at hmissed
  | signal hpc => simp [Missed] at hmissed
  | again hpc hn => simp [Missed] at hmissed
  | finish hpc => simp [Missed] at hmissed
  | beginWrite hpc howner hroom => simp [Missed] at hmissed
  | count hpc => exact ⟨by simp [framesWritten],Or.inl (by simpa [Missed] using hmissed)⟩
  | _ => exact ⟨rfl,Or.inl hmissed⟩

/-- At least `total` frames are stored or at hand, and a helper call that came away with
nothing though frames were missing has used them up. -/
structure Supplied (total : ℕ) (s : State cfg) : Prop where
  supply : total ≤ supply s
  short : ∀ w, Missed s w → 0 < w.count → total ≤ framesWritten s

theorem Move.supplied {s t : State cfg} {a : Action α} (h : Move s a t) {total : ℕ} (hsup : Supplied total s)
    (hs : Ownership s) (hf : Fidelity s) (hh : Held s) (hdrain : t.owner.draining = false) : Supplied total t := by
  refine ⟨hsup.supply.trans (h.supply_le hs hf hh hdrain),fun w hmissed hcount => ?_⟩
  obtain ⟨hsame,hold | ⟨_,hpc,hcur,hq⟩⟩ := h.missed hh hmissed hcount
  · exact hsame ▸ hsup.short w hold hcount
  · have hnone : available s = 0 := by simp [available,readable,hpc,hcur,hq]
    have hsupply := hsup.supply
    rw [OutputWorkerThread.supply,hnone,Nat.add_zero] at hsupply
    exact hsame ▸ hsupply

theorem Reachable.before_draining {I : State cfg → Prop} {s t : State cfg} (h : Reachable s) (hs : I s)
    (hreach : Reaches step (fun _ => True) s t) (hdrain : t.owner.draining = false)
    (hstep : ∀ t u a, Reachable t → I t → Move t a u → u.owner.draining = false → I u) : I t := by
  induction hreach with
  | refl => exact hs
  | @tail t u a htail _ hnext ih =>
    have hmove := step_move hnext
    exact hstep t u a (Reaches.trans h htail) (ih (hmove.not_draining hdrain)) hmove hdrain

theorem Reachable.supplied {s t : State cfg} (h : Reachable s) (hframes : 1 ≤ cfg.destinationFrames) {total : ℕ}
    (hsup : Supplied total s) (hreach : Reaches step (fun _ => True) s t) (hdrain : t.owner.draining = false) :
    Supplied total t :=
  h.before_draining hsup hreach hdrain fun _ _ _ ht hsup hmove hdrain =>
    hmove.supplied hsup ht.ownership ht.fidelity (ht.held hframes) hdrain

end OutputWorkerThread
end AudioOutput
