import AudioOutput.ShutdownTermination
import AudioOutput.WriteSupply

/-!
# One call of `write`

A helper call takes all that is left in a buffer or all that is still asked for, so
only the last one can come away with nothing. If frames are missing then, it has
found no buffer at all.
-/

namespace AudioOutput
namespace OutputWorkerThread

open Transition

universe u
variable {α : Type u} {cfg : Config α}

def Acquires (s : State cfg) (a : Action α) : Prop := a = .io ∧ ∃ w, s.io = .acquiring w

/-- The buffers that a call has had in its hands: the one held when it began, and those
that its helper calls, begun in the given states, have acquired. -/
def touched (current : Option Pointer) (calls : List (State cfg)) : ℕ :=
  current.toList.length+calls.countP fun s => s.currentBuffer = none ∧ s.preparedBuffers ≠ []

theorem touched_append (current : Option Pointer) (calls : List (State cfg)) (s : State cfg) :
    touched current (calls ++ [s]) =
      touched current calls+if s.currentBuffer = none ∧ s.preparedBuffers ≠ [] then 1 else 0 := by
  simp [touched,List.countP_append,List.countP_singleton,Nat.add_assoc]

@[simp] def Counted (calls touched : ℕ) (current : Option Pointer) : IoPc α → Prop
  | .idle => calls ≤ touched+1
  | .acquiring w => calls ≤ touched ∧ (current ≠ none → 0 < w.count → calls < touched)
  | .copying w => calls ≤ touched+1 ∧ (current ≠ none → 0 < w.count → calls ≤ touched)
  | .releasing _ _ _ | .signalling _ _ | .clearing _ _ => calls ≤ touched
  | .returning w n => calls ≤ touched+1 ∧ (0 < n → calls ≤ touched ∧ (current ≠ none → w.count = n))

theorem Counted.le {calls touched : ℕ} {current : Option Pointer} {io : IoPc α} (h : Counted calls touched current io) :
    calls ≤ touched+1 := by
  cases io <;> simp at h <;> omega

/-- The locals of the call of `write(count, destination)` when `n` frames are copied and
not accounted for. What is behind the frames is as it was. -/
structure WriteCall.Serves (channels count : ℕ) (destination : List α) (w : WriteCall α) (n : ℕ) : Prop where
  requested : w.requested = count
  total : w.writtenTotal+w.count = count
  length : w.destination.length = destination.length
  kept : w.destination.drop (channels*(w.writtenTotal+n)) = destination.drop (channels*(w.writtenTotal+n))

theorem WriteCall.Serves.copy {s : State cfg} {count : ℕ} {destination : List α} {w : WriteCall α}
    (h : w.Serves cfg.destinationChannels count destination 0) (hs : Ownership s) (hf : Fidelity s)
    {buff : Pointer} (hpc : s.io = .copying w) (hcur : s.currentBuffer = some buff) {n : ℕ}
    (hn : n = willWrite cfg (s.heap buff) w.count) :
    (w.copy cfg (s.heap buff)).Serves cfg.destinationChannels count destination n where
  requested := h.requested
  total := h.total
  length := (hf.copy hs hpc hcur hn).1.trans h.length
  kept := by
    have hdrop := hf.copy_drop hs hpc hcur hn
    have hkept := congrArg (List.drop (cfg.destinationChannels*n)) h.kept
    rw [Nat.add_zero,List.drop_drop,List.drop_drop,← Nat.mul_add] at hkept
    rw [(hf.call w 0 (by rw [hpc]; rfl)).2.1,← Nat.mul_add] at hdrop
    exact hdrop.trans hkept

def IoPc.Serves (channels count : ℕ) (destination : List α) (io : IoPc α) : Prop :=
  ∀ w n, io.call = some (w,n) → w.Serves channels count destination n

theorem serves_start (channels count : ℕ) (destination : List α) :
    (IoPc.acquiring ⟨count,count,0,destination,0⟩).Serves channels count destination := by
  intro w n hcall
  obtain ⟨rfl,rfl⟩ : _ ∧ _ := by simpa [IoPc.call] using hcall
  exact ⟨rfl,Nat.zero_add _,rfl,rfl⟩

variable [Zero α]

theorem Move.returns_grow {s t : State cfg} {a : Action α} (h : Move s a t) : s.returns <+: t.returns := by
  cases h with
  | finish hpc => exact List.prefix_append _ _
  | count hpc => simp
  | _ => exact List.prefix_rfl

theorem returns_grow_of_reaches {s t : State cfg} (h : Reaches step (fun _ => True) s t) : s.returns <+: t.returns :=
  h.invariant (I := fun t => s.returns <+: t.returns) List.prefix_rfl
    fun _ _ _ _ hprefix hstep => hprefix.trans (step_move hstep).returns_grow

theorem Move.serves {s t : State cfg} (h : Move s .io t) (hs : Ownership s) (hf : Fidelity s) {count : ℕ}
    {destination : List α} (hcall : s.io.Serves cfg.destinationChannels count destination) :
    t.io.Serves cfg.destinationChannels count destination := by
  intro v n hv
  have hold := hcall v n
  cases h with
  | spin => exact hold hv
  | acquireNone hpc hcur hq => exact hold (by rw [hpc]; exact hv)
  | acquireSome hpc hcur hq => exact hold (by rw [hpc]; exact hv)
  | acquireHeld hpc hcur => exact hold (by rw [hpc]; exact hv)
  | copyNone hpc hcur => exact hold (by rw [hpc]; exact hv)
  | release hpc hroom => exact hold (by rw [hpc]; exact hv)
  | signal hpc => exact hold (by rw [hpc]; exact hv)
  | clear hpc => exact hold (by rw [hpc]; exact hv)
  | finish hpc => cases hv
  | @copyAll w buff hpc hcur hused =>
    obtain ⟨rfl,rfl⟩ : _ ∧ _ := by simpa [IoPc.call] using hv
    exact (hcall w 0 (by rw [hpc]; rfl)).copy hs hf hpc hcur rfl
  | @copyPart w buff hpc hcur hused =>
    obtain ⟨rfl,rfl⟩ : _ ∧ _ := by simpa [IoPc.call] using hv
    exact (hcall w 0 (by rw [hpc]; rfl)).copy hs hf hpc hcur rfl
  | @again w m hpc hm =>
    obtain ⟨rfl,rfl⟩ : _ ∧ _ := by simpa [IoPc.call] using hv
    have hserves := hcall w m (by rw [hpc]; rfl)
    have htotal := hserves.total
    obtain ⟨hle,_⟩ := hf.call w m (by rw [hpc]; rfl)
    exact ⟨hserves.requested,by simp only [WriteCall.advance]; omega,hserves.length,hserves.kept⟩

/-- Within a helper call. -/
theorem Move.counted {s t : State cfg} (h : Move s .io t) (hh : Held s) (hacquires : ¬ Acquires s .io)
    {calls touched : ℕ} (hcounted : Counted calls touched s.currentBuffer s.io) :
    Counted calls touched t.currentBuffer t.io := by
  have hnot : ∀ w, s.io ≠ .acquiring w := fun w hw => hacquires ⟨rfl,w,hw⟩
  cases h with
  | spin => exact hcounted
  | acquireNone hpc hcur hq => exact absurd hpc (hnot _)
  | acquireSome hpc hcur hq => exact absurd hpc (hnot _)
  | acquireHeld hpc hcur => exact absurd hpc (hnot _)
  | copyNone hpc hcur => simp_all
  | @copyAll w buff hpc hcur hused =>
    -- the buffer was not empty, so its last frames were asked for
    have hbefore := hh.current (by simp [hpc]) buff hcur
    have hle := willWrite_le cfg (s.heap buff) w.count
    rw [hpc,hcur] at hcounted
    exact hcounted.2 (by simp) (by omega)
  | @copyPart w buff hpc hcur hused =>
    have hbefore := hh.current (by simp [hpc]) buff hcur
    rw [hpc,hcur] at hcounted
    refine ⟨hcounted.1,fun hn => ⟨hcounted.2 (by simp) (hn.trans_le (willWrite_le cfg _ _).1),fun _ => ?_⟩⟩
    have hmin := willWrite_eq_min cfg (s.heap buff) w.count
    change w.count = willWrite cfg (s.heap buff) w.count
    omega
  | release hpc hroom => simpa [hpc] using hcounted
  | signal hpc => simpa [hpc] using hcounted
  | clear hpc =>
    rw [hpc] at hcounted
    exact ⟨hcounted.trans (Nat.le_succ _),fun _ => ⟨hcounted,by simp⟩⟩
  | again hpc hn =>
    rw [hpc] at hcounted
    obtain ⟨hle,hall⟩ := hcounted.2 hn
    refine ⟨hle,fun hcur hcount => ?_⟩
    simp only [WriteCall.advance,hall hcur,Nat.sub_self] at hcount
    exact absurd hcount (lt_irrefl 0)
  | finish hpc =>
    rw [hpc] at hcounted
    exact hcounted.1

/-- At its beginning. -/
theorem counted_acquire {s t : State cfg} {w : WriteCall α} (hio : s.io = .acquiring w) (h : step s .io = some t)
    {current : Option Pointer} {calls : List (State cfg)}
    (hcounted : Counted calls.length (touched current calls) s.currentBuffer s.io) :
    Counted (calls ++ [s]).length (touched current (calls ++ [s])) t.currentBuffer t.io := by
  rw [touched_append,List.length_append,List.length_singleton]
  rw [hio] at hcounted
  obtain ⟨hle,hlt⟩ := hcounted
  simp only [step,ioThread,hio] at h
  split at h
  case h_1 hcur =>
    cases h
    cases hq : s.preparedBuffers with
    | nil => simpa [acquireBuffer,hcur,hq] using hle
    | cons buff rest =>
      simp only [acquireBuffer,hcur,hq,Counted,true_and]
      refine ⟨?_,fun _ _ => ?_⟩ <;> simp <;> omega
  case h_2 buff hcur =>
    cases h
    rw [hcur] at hlt ⊢
    simp only [Counted,reduceCtorEq,false_and,if_false]
    exact ⟨Nat.succ_le_succ hle,fun hsome hcount => hlt hsome hcount⟩

theorem beginWrite_eq {s t : State cfg} {count : ℕ} {destination : List α} (h : step s (.write count destination) = some t) :
    s.io = .idle ∧ t = { s with io := .acquiring ⟨count,count,0,destination,0⟩ } := by
  simp only [step,beginWrite] at h
  split at h
  all_goals first
    | (split at h <;> cases h; exact ⟨‹_›,rfl⟩)
    | cases h

/-- The call that began in `s` has not returned in `u`; `calls` are the states in which
its helper calls have begun. -/
structure During (s : State cfg) (count : ℕ) (destination : List α) (calls : List (State cfg)) (u : State cfg) : Prop where
  returns : u.returns = s.returns
  busy : u.io ≠ .idle
  serves : u.io.Serves cfg.destinationChannels count destination
  counted : Counted calls.length (touched s.currentBuffer calls) u.currentBuffer u.io
  searched : ∀ w, Missed u w → 0 < w.count →
    ∃ v, calls.getLast? = some v ∧ v.currentBuffer = none ∧ v.preparedBuffers = []

theorem Move.returned_call {s t : State cfg} (h : Move s .io t) (hbusy : s.io ≠ .idle)
    (hidle : t.io = .idle ∨ t.returns ≠ s.returns) : ∃ w, s.io = .returning w 0 ∧
      t = { s with io := .idle, returns := s.returns ++ [⟨w.requested,w.writtenTotal,w.destination⟩] } := by
  cases h with
  | finish hpc => exact ⟨_,hpc,rfl⟩
  | spin => simp [hbusy] at hidle
  | _ => simp [State.setHeap] at hidle

theorem During.start {s t : State cfg} {count : ℕ} {destination : List α} (h : step s (.write count destination) = some t) :
    During s count destination [] t := by
  obtain ⟨_,rfl⟩ := beginWrite_eq h
  refine ⟨rfl,by simp,serves_start _ _ _,by cases hcur : s.currentBuffer <;> simp [touched],fun w hmissed => ?_⟩
  simp [Missed] at hmissed

theorem During.preserved {s u t : State cfg} {count : ℕ} {destination : List α} {calls : List (State cfg)}
    (hd : During s count destination calls u) (hframes : 1 ≤ cfg.destinationFrames) (hu : Reachable u) {a : Action α}
    (hstep : step u a = some t) (hreturns : t.returns = s.returns) :
    (Acquires u a → During s count destination (calls ++ [u]) t) ∧
      (¬ Acquires u a → During s count destination calls t) := by
  have hmove := step_move hstep
  have hh := hu.held hframes
  have hclosing (ha : Closing a) : (Acquires u a → During s count destination (calls ++ [u]) t) ∧
      (¬ Acquires u a → During s count destination calls t) := by
    obtain ⟨hio,hcur,_⟩ := hmove.closing_fields ha
    refine ⟨fun ⟨heq,_⟩ => ?_,fun _ => ⟨hreturns,hio ▸ hd.busy,hio ▸ hd.serves,?_,fun w hmissed => ?_⟩⟩
    · subst heq
      exact ha.elim
    · rw [hio,hcur]
      exact hd.counted
    · unfold Missed at hmissed
      rw [hio,hcur] at hmissed
      exact hd.searched w hmissed
  cases a with
  | worker => exact hclosing trivial
  | owner => exact hclosing trivial
  | destroy => exact hclosing trivial
  | write c d => exact absurd (beginWrite_eq hstep).1 hd.busy
  | io =>
    have hbusy : t.io ≠ .idle := by
      intro hidle
      obtain ⟨w,_,rfl⟩ := hmove.returned_call hd.busy (Or.inl hidle)
      simp [hd.returns] at hreturns
    have hserves := hmove.serves hu.ownership hu.fidelity hd.serves
    constructor
    · rintro ⟨_,w,hio⟩
      refine ⟨hreturns,hbusy,hserves,counted_acquire hio hstep hd.counted,fun v hmissed hcount => ?_⟩
      rcases (hmove.missed hh hmissed hcount).2 with hold | ⟨_,_,hcur,hq⟩
      · simp [Missed,hio] at hold
      · exact ⟨u,List.getLast?_concat,hcur,hq⟩
    · intro hacquires
      refine ⟨hreturns,hbusy,hserves,hmove.counted hh hacquires hd.counted,fun v hmissed hcount => ?_⟩
      rcases (hmove.missed hh hmissed hcount).2 with hold | ⟨_,hpc,_⟩
      · exact hd.searched v hold hcount
      · exact absurd ⟨rfl,v,hpc⟩ hacquires

theorem returns_eq_of_reaches {s t u : State cfg} (ht : Reaches step (fun _ => True) s t)
    (hu : Reaches step (fun _ => True) t u) (hreturns : u.returns = s.returns) : t.returns = s.returns := by
  have hbefore := returns_grow_of_reaches ht
  have hafter := returns_grow_of_reaches hu
  rw [hreturns] at hafter
  exact hafter.eq_of_length_le hbefore.length_le

theorem During.of_logged {s s₁ u : State cfg} {count : ℕ} {destination : List α} {calls : List (State cfg)}
    (h : Reachable s) (hframes : 1 ≤ cfg.destinationFrames) (hwrite : step s (.write count destination) = some s₁)
    (hlog : Logged step Acquires s₁ calls u) (hreturns : u.returns = s.returns) :
    During s count destination calls u := by
  have hs₁ : Reaches step (fun _ => True) s s₁ := Reaches.refl.tail trivial hwrite
  induction hlog with
  | refl => exact .start hwrite
  | @skip l t u a hlog hp hstep ih =>
    have ht := hs₁.trans hlog.reaches
    have hd := ih (returns_eq_of_reaches ht (Reaches.refl.tail trivial hstep) hreturns)
    exact (hd.preserved hframes (Reaches.trans h ht) hstep hreturns).2 hp
  | @log l t u a hlog hp hstep ih =>
    have ht := hs₁.trans hlog.reaches
    have hd := ih (returns_eq_of_reaches ht (Reaches.refl.tail trivial hstep) hreturns)
    exact (hd.preserved hframes (Reaches.trans h ht) hstep hreturns).1 hp

/-- What a call of `write(count, destination)` on `s` returns, with its helper calls. -/
structure WriteReturn.Exact (s : State cfg) (count : ℕ) (destination : List α) (calls : List (State cfg)) (t : State cfg)
    (r : WriteReturn α) : Prop where
  requested : r.requested = count
  least : min count (available s) ≤ r.written
  most : r.written ≤ count
  frames : framesReturned s ++ r.destination.take (cfg.destinationChannels*r.written) <+: t.produced.flatten
  length : r.destination.length = destination.length
  kept : r.destination.drop (cfg.destinationChannels*r.written) = destination.drop (cfg.destinationChannels*r.written)
  underrun : r.written < count → ∃ v, calls.getLast? = some v ∧ v.currentBuffer = none ∧ v.preparedBuffers = []
  held : ∀ p, t.currentBuffer = some p → (t.heap p).used < cfg.destinationFrames

theorem supplied_of_write {s t : State cfg} {count : ℕ} {destination : List α} (h : step s (.write count destination) = some t) :
    Supplied ((s.returns.map WriteReturn.written).sum+available s) t := by
  obtain ⟨hidle,rfl⟩ := beginWrite_eq h
  refine ⟨?_,fun w hmissed => by simp [Missed] at hmissed⟩
  have hsame : available { s with io := .acquiring ⟨count,count,0,destination,0⟩ } = available s := by
    simp only [available,readable,hidle,IoPc.hands]
    rfl
  rw [supply,hsame,framesWritten]
  exact le_rfl

theorem During.returned {s s₁ u t : State cfg} {count : ℕ} {destination : List α} {calls : List (State cfg)}
    (hd : During s count destination calls u) (h : Reachable s) (hframes : 1 ≤ cfg.destinationFrames)
    (hwrite : step s (.write count destination) = some s₁) (hu : Reaches step (fun _ => True) s₁ u)
    (hdrain : u.owner.draining = false) (hstep : step u .io = some t) (hreturns : t.returns ≠ s.returns) :
    ∃ r, t.returns = s.returns ++ [r] ∧ r.Exact s count destination calls t := by
  have hs₁ : Reachable s₁ := Reaches.tail h trivial hwrite
  have hreach : Reachable u := Reaches.trans hs₁ hu
  have ht : Reachable t := hreach.tail trivial hstep
  have hsup := hs₁.supplied hframes (supplied_of_write hwrite) hu hdrain
  obtain ⟨w,hio,rfl⟩ := (step_move hstep).returned_call hd.busy (Or.inr (by rwa [hd.returns]))
  have hserves := hd.serves w 0 (by rw [hio]; rfl)
  have htotal := hserves.total
  refine ⟨_,by rw [hd.returns],?_⟩
  exact {
    requested := hserves.requested
    least := by
      by_cases hshort : 0 < w.count
      · have hwritten := hsup.short w (Or.inr hio) hshort
        simp only [framesWritten,hd.returns,hio,IoPc.written,Nat.add_zero] at hwritten
        dsimp only
        omega
      · dsimp only
        omega
    most := by dsimp only; omega
    frames := by
      have hpipeline := ht.fidelity.pipeline hdrain
      rw [hpipeline]
      simp only [delivered,framesReturned,hd.returns,List.flatMap_append,List.flatMap_singleton,IoPc.copied,
        List.append_nil]
      exact List.prefix_append _ _
    length := hserves.length
    kept := hserves.kept
    underrun := fun hshort => hd.searched w (Or.inr hio) (by dsimp only at hshort; omega)
    held := fun p hp => (ht.held hframes).current rfl p hp }

/-- What is left of a call: seven for each frame, and the way to the end of a helper call. -/
@[simp] def IoPc.rank : IoPc α → ℕ
  | .idle => 0
  | .acquiring w => 7*w.count+3
  | .copying w => 7*w.count+2
  | .releasing w _ n => 7*(w.count-n)+7
  | .signalling w n => 7*(w.count-n)+6
  | .clearing w n => 7*(w.count-n)+5
  | .returning w n => if n = 0 then 1 else 7*(w.count-n)+4

theorem Move.io_rank_lt {s t : State cfg} (h : Move s .io t) (hh : Held s) :
    t = s ∨ t.io.rank < s.io.rank := by
  cases h with
  | spin => exact Or.inl rfl
  | acquireNone hpc hcur hq => simp [hpc]
  | acquireSome hpc hcur hq => simp [hpc]
  | acquireHeld hpc hcur => simp [hpc]
  | copyNone hpc hcur => simp [hpc]
  | @copyAll w buff hpc hcur hused =>
    have hbefore := hh.current (by simp [hpc]) buff hcur
    have hle := willWrite_le cfg (s.heap buff) w.count
    simp [hpc,WriteCall.copy]
    omega
  | @copyPart w buff hpc hcur hused =>
    have hle := willWrite_le cfg (s.heap buff) w.count
    simp only [hpc,IoPc.rank,WriteCall.copy]
    split <;> omega
  | release hpc hroom => simp [hpc]
  | signal hpc => simp [hpc]
  | clear hpc =>
    have htaken := hh.taken _ (by rw [hpc]; rfl)
    simp [hpc,htaken.ne']
  | again hpc hn => simp [hpc,hn.ne',WriteCall.advance]
  | finish hpc => simp [hpc]

/-- A call is never blocked, and it spins only where it waits for room in `returned_buffers`. -/
theorem io_moves {s : State cfg} (hbusy : s.io ≠ .idle) : ∃ t, step s .io = some t ∧
    ((∀ w buff n, s.io = .releasing w buff n → s.returnedBuffers.length < cfg.mixahead) → t ≠ s) := by
  have hne {t : State cfg} (h : t.io ≠ s.io) : t ≠ s := fun he => h (he ▸ rfl)
  cases hio : s.io with
  | idle => exact absurd hio hbusy
  | acquiring w =>
    cases hcur : s.currentBuffer with
    | none => exact ⟨_,by simp only [step,ioThread,hio,hcur]; rfl,fun _ => hne (by simp [hio])⟩
    | some buff => exact ⟨_,by simp only [step,ioThread,hio,hcur]; rfl,fun _ => hne (by simp [hio])⟩
  | copying w =>
    cases hcur : s.currentBuffer with
    | none => exact ⟨_,by simp only [step,ioThread,hio,hcur]; rfl,fun _ => hne (by simp [hio])⟩
    | some buff =>
      by_cases hall : (s.heap buff).used+willWrite cfg (s.heap buff) w.count = cfg.destinationFrames
      · exact ⟨_,by simp only [step,ioThread,hio,hcur,hall,if_true]; rfl,fun _ => hne (by simp [hio])⟩
      · exact ⟨_,by simp only [step,ioThread,hio,hcur,hall,if_false]; rfl,fun _ => hne (by simp [hio])⟩
  | releasing w buff n =>
    by_cases hroom : s.returnedBuffers.length < cfg.mixahead
    · exact ⟨_,by simp only [step,ioThread,hio,push,hroom,if_true]; rfl,fun _ => hne (by simp [hio])⟩
    · exact ⟨s,by simp only [step,ioThread,hio,push,hroom,if_false],fun h => absurd (h w buff n rfl) hroom⟩
  | signalling w n => exact ⟨_,by simp only [step,ioThread,hio]; rfl,fun _ => hne (by simp [hio])⟩
  | clearing w n => exact ⟨_,by simp only [step,ioThread,hio]; rfl,fun _ => hne (by simp [hio])⟩
  | returning w n =>
    by_cases hn : 0 < n
    · exact ⟨_,by simp only [step,ioThread,hio,hn,if_true]; rfl,fun _ => hne (by simp [hio])⟩
    · exact ⟨_,by simp only [step,ioThread,hio,hn,if_false]; rfl,fun _ => hne (by simp [hio])⟩

theorem During.of_reaches {s s₁ u : State cfg} {count : ℕ} {destination : List α} (h : Reachable s)
    (hframes : 1 ≤ cfg.destinationFrames) (hwrite : step s (.write count destination) = some s₁)
    (hu : Reaches step (fun _ => True) s₁ u) (hreturns : u.returns = s.returns) :
    ∃ calls, During s count destination calls u := by
  obtain ⟨calls,hlog⟩ := hu.logged Acquires
  exact ⟨calls,.of_logged h hframes hwrite hlog hreturns⟩

theorem Move.stopQueued {s t : State cfg} {a : Action α} (h : Move s a t) (hqueued : t.owner.stopQueued = false) :
    s.owner.stopQueued = false := by
  cases h with
  | pushStop | signalStop | join | drainedReturned | drainedPrepared => cases hqueued
  | allocate hpc | allocated hpc | pushNew hpc | signalAll hpc | start hpc | beginDestroy hpc => rw [hpc]; rfl
  | count => simpa using hqueued
  | _ => exact hqueued

/-- Without a stop command in its way, a call needs no more than so many steps. -/
theorem io_steps_le {s s₁ u : State cfg} {count : ℕ} {destination : List α} (h : Reachable s)
    (hframes : 1 ≤ cfg.destinationFrames) (hwrite : step s (.write count destination) = some s₁) {l : List (State cfg)}
    (hlog : Logged step (fun _ a => a = .io) s₁ l u) (hreturns : u.returns = s.returns)
    (hqueued : u.owner.stopQueued = false) : l.length+u.io.rank ≤ 7*count+3 := by
  have hs₁ : Reaches step (fun _ => True) s s₁ := Reaches.refl.tail trivial hwrite
  induction hlog with
  | refl =>
    obtain ⟨_,rfl⟩ := beginWrite_eq hwrite
    simp
  | @skip l t u a hlog ha hstep ih =>
    have hmove := step_move hstep
    have hsame := returns_eq_of_reaches (hs₁.trans hlog.reaches) (Reaches.refl.tail trivial hstep) hreturns
    obtain ⟨_,hd⟩ := During.of_reaches h hframes hwrite hlog.reaches hsame
    have hio : u.io = t.io := by
      cases a with
      | io => exact absurd rfl ha
      | write c d => exact absurd (beginWrite_eq hstep).1 hd.busy
      | _ => exact (hmove.closing_fields trivial).1
    rw [hio]
    exact ih hsame (hmove.stopQueued hqueued)
  | @log l t u a hlog ha hstep ih =>
    subst ha
    have hmove := step_move hstep
    have hsame := returns_eq_of_reaches (hs₁.trans hlog.reaches) (Reaches.refl.tail trivial hstep) hreturns
    obtain ⟨_,hd⟩ := During.of_reaches h hframes hwrite hlog.reaches hsame
    have ht : Reachable t := Reaches.trans h (hs₁.trans hlog.reaches)
    obtain ⟨v,hv,hmoves⟩ := io_moves hd.busy
    obtain rfl : u = v := Option.some.inj (hstep.symm.trans hv)
    have hne := hmoves fun w buff n hpc => ht.ownership.releasing_room hpc (hmove.stopQueued hqueued)
    have hlt := (hmove.io_rank_lt (ht.held hframes)).resolve_left hne
    have hrest := ih hsame (hmove.stopQueued hqueued)
    rw [List.length_append,List.length_singleton]
    omega

@[simp] def Scheduled : Action α → Prop
  | .worker | .io | .owner => True
  | .write _ _ | .destroy => False

/-- A buffer given back is work for the worker. -/
def callRemaining (s : State cfg) : ℕ := 16*s.io.rank+remaining s

theorem Move.remaining_io_le {s t : State cfg} (h : Move s .io t) : remaining t ≤ remaining s+8 := by
  unfold remaining
  cases h with
  | acquireSome hpc hcur hq =>
    rw [hq,List.length_cons]
    dsimp only
    omega
  | acquireNone hpc hcur hq => simp [hq]
  | release hpc hroom =>
    dsimp only
    rw [List.length_append,List.length_singleton]
    omega
  | _ => exact Nat.le_add_right _ _

theorem Move.callRemaining_lt {s t : State cfg} {a : Action α} (h : Move s a t) (ha : Scheduled a) (hh : Held s)
    (hbuilt : s.owner.constructing = false) :
    t = s ∨ callRemaining t < callRemaining s := by
  have hclosing (ha : Closing a) : t = s ∨ callRemaining t < callRemaining s := by
    refine (h.remaining_lt ha hbuilt).imp_right fun hlt => ?_
    rw [callRemaining,callRemaining,(h.closing_fields ha).1]
    exact Nat.add_lt_add_left hlt _
  cases a with
  | worker => exact hclosing trivial
  | owner => exact hclosing trivial
  | io =>
    refine (h.io_rank_lt hh).imp_right fun hlt => ?_
    have hle := h.remaining_io_le
    simp only [callRemaining]
    omega
  | write c d => exact ha.elim
  | destroy => exact ha.elim

/-- Where `releaseBuffer` waits for room, the stop command is on its way to the worker. -/
theorem room_progress {s : State cfg} (hs : Ownership s) {w : WriteCall α} {buff : Pointer} {n : ℕ}
    (hpc : s.io = .releasing w buff n) (hfull : cfg.mixahead ≤ s.returnedBuffers.length) :
    ∃ a t, Scheduled a ∧ step s a = some t ∧ t ≠ s := by
  have hqueued : s.owner.stopQueued = true := by
    by_contra hnot
    exact absurd (hs.releasing_room hpc (Bool.eq_false_iff.mpr hnot)) (not_lt.mpr hfull)
  have hcur := hs.releasing w buff n hpc
  have hbuilt : s.owner.constructing = false := by cases ho : s.owner <;> simp_all
  have hlen := hs.length_places
  have hbound := hs.bound
  have hio : (s.io.hands s.currentBuffer).length = 1 := by rw [hpc,hcur]; rfl
  rw [hio] at hlen
  have hrun : s.worker.finished = false := by
    by_contra hdone
    have hnone : stopInPlay s = [] := by
      rw [stopInPlay,Bool.eq_true_of_not_eq_false hdone]
      simp
    rw [hnone,List.length_nil] at hlen
    omega
  have hdrain : s.owner.draining = false := by
    by_contra hd
    rw [hs.joined (Bool.eq_true_of_not_eq_false hd)] at hrun
    cases hrun
  by_cases hsignal : s.owner = .stopSignalling
  · refine ⟨.owner,_,trivial,by simp only [step,ownerThread,hsignal]; rfl,fun he => ?_⟩
    have howner := congrArg State.owner he
    simp [hsignal] at howner
  · have hwait (hw : s.worker = .waiting) : 0 < s.semaphore := by
      have hsem := hs.semaphore hdrain
      have hpending : s.owner.pendingSignals cfg.mixahead = 0 := by cases ho : s.owner <;> simp_all
      have hmem := List.length_pos_of_mem (hs.stack_mem hqueued hrun (by rw [hw]; simp))
      rw [hpending,hpc,hw] at hsem
      simp only [WorkerPc.granted,IoPc.pendingSignals] at hsem
      omega
    have hreturned : s.worker ≠ .returned := by
      intro hw
      rw [hw] at hrun
      cases hrun
    obtain ⟨t,hstep,hne⟩ := worker_moves hs hbuilt hdrain hreturned hwait
    exact ⟨.worker,t,trivial,hstep,hne⟩

/-- If all threads are scheduled fairly, a call returns. -/
theorem call_returns {u : State cfg} (hu : Reachable u) (hframes : 1 ≤ cfg.destinationFrames)
    (e : Execution (S := State cfg) step Scheduled) (he : e.state 0 = u) (hfair : e.WeaklyFair) :
    ∃ n, (e.state n).io = .idle := by
  refine e.eventually hfair (I := Reachable) (G := fun s => s.io = .idle) callRemaining
    (he ▸ hu)
    (fun s a t _ hs hstep => hs.tail trivial hstep) (fun s a t ha hs hbusy hstep => ?_) fun s hs hbusy => ?_
  · have hbuilt : s.owner.constructing = false :=
      Bool.eq_false_iff.mpr fun hc => hbusy (hs.ownership.idle hc)
    exact (step_move hstep).callRemaining_lt ha (hs.held hframes) hbuilt
  · have hbuilt : s.owner.constructing = false :=
      Bool.eq_false_iff.mpr fun hc => hbusy (hs.ownership.idle hc)
    suffices h : ∃ a t, Scheduled a ∧ step s a = some t ∧ t ≠ s by
      obtain ⟨a,t,ha,hstep,hne⟩ := h
      exact ⟨a,t,ha,hstep,((step_move hstep).callRemaining_lt ha (hs.held hframes) hbuilt).resolve_left hne⟩
    by_cases hfull : ∃ w buff n, s.io = .releasing w buff n ∧ cfg.mixahead ≤ s.returnedBuffers.length
    · obtain ⟨w,buff,n,hpc,hfull⟩ := hfull
      exact room_progress hs.ownership hpc hfull
    · obtain ⟨t,hstep,hmoves⟩ := io_moves hbusy
      refine ⟨.io,t,trivial,hstep,hmoves fun w buff n hpc => ?_⟩
      by_contra hroom
      exact hfull ⟨w,buff,n,hpc,not_lt.mp hroom⟩

/-- A call of `write`, in every interleaving: it makes one helper call for each buffer it
touches and one more at most, and returns, with no fewer frames than there were for it
and no more than asked for, stored in front of what was at the destination. If frames
are missing, its last helper call has found no buffer. -/
theorem write_detects_underruns {s s₁ : State cfg} {count : ℕ} {destination : List α} (h : Reachable s)
    (hframes : 1 ≤ cfg.destinationFrames) (hwrite : step s (.write count destination) = some s₁) :
    (∀ calls u, Logged step Acquires s₁ calls u → u.returns = s.returns →
      calls.length ≤ touched s.currentBuffer calls+1 ∧
      ∀ t, u.owner.draining = false → step u .io = some t → t.returns ≠ s.returns →
        ∃ r, t.returns = s.returns ++ [r] ∧ r.Exact s count destination calls t) ∧
    (∀ l u, Logged step (fun _ a => a = .io) s₁ l u → u.returns = s.returns →
      (step u .io).isSome ∧ (u.owner.stopQueued = false → l.length ≤ 7*count+3)) ∧
    ∀ u, Reaches step (fun _ => True) s₁ u → ∀ e : Execution step Scheduled, e.state 0 = u → e.WeaklyFair →
      ∃ n, (e.state n).io = .idle := by
  have hs₁ : Reachable s₁ := Reaches.tail h trivial hwrite
  refine ⟨fun calls u hlog hreturns => ?_,fun l u hlog hreturns => ?_,fun u hu e he hfair => ?_⟩
  · have hd := During.of_logged h hframes hwrite hlog hreturns
    exact ⟨hd.counted.le,fun t hdrain hstep hne => hd.returned h hframes hwrite hlog.reaches hdrain hstep hne⟩
  · obtain ⟨_,hd⟩ := During.of_reaches h hframes hwrite hlog.reaches hreturns
    obtain ⟨t,hstep,_⟩ := io_moves hd.busy
    refine ⟨by rw [hstep]; rfl,fun hqueued => ?_⟩
    have hle := io_steps_le h hframes hwrite hlog hreturns hqueued
    omega
  · exact call_returns (Reaches.trans hs₁ hu) hframes e he hfair

/-- Three frames are asked for and there are two. -/
theorem write_detects_underruns_short : ∃ (s s₁ : State counting) (r : WriteReturn ℕ), Reachable s ∧
    step s (.write 3 [0,0,0]) = some s₁ ∧ available s = 2 ∧ min 3 (available s) ≤ r.written ∧ r.written < 3 ∧
    r.destination.drop (1*r.written) = [0,0,0].drop (1*r.written) := by
  have hrun : (run step (initial counting) (construct ++ mixOnce)).isSome := rfl
  have hreach := reachable_of_run (Option.some_get hrun).symm
  have hwrite : (step ((run step (initial counting) (construct ++ mixOnce)).get hrun) (.write 3 [0,0,0])).isSome := rfl
  have hrun' : (run step ((step ((run step (initial counting) (construct ++ mixOnce)).get hrun)
    (.write 3 [0,0,0])).get hwrite) (List.replicate 8 .io)).isSome := rfl
  have hwrite' := (Option.some_get hwrite).symm
  have hpath : Reaches step (fun _ => True) _ _ := Reaches.of_run (fun _ _ => trivial) (Option.some_get hrun').symm
  obtain ⟨calls,hlog⟩ := hpath.logged Acquires
  have hcall := ((write_detects_underruns hreach (by decide) hwrite').1 calls _ hlog rfl).2
  obtain ⟨r,hr,hexact⟩ := hcall _ rfl rfl fun he => Nat.succ_ne_zero 0 (congrArg List.length he)
  have hwritten : r.written = 2 := by
    have hsame : [2] = [r.written] := congrArg (List.map WriteReturn.written) hr
    simpa using hsame.symm
  exact ⟨_,_,r,hreach,hwrite',rfl,hexact.least,by omega,hexact.kept⟩

end OutputWorkerThread
end AudioOutput
