import AudioOutput.BlockLength
import AudioOutput.WriteCalls

/-!
# Buffers without frames

The worker's constructor computes the length of its buffers by a division that may give
zero, and has no guard for that case as the converter has. `write` then hands every
buffer back without having taken a frame out of it.
-/

namespace AudioOutput
namespace OutputWorkerThread

open Transition

universe u
variable {α : Type u} [Zero α] {cfg : Config α}

/-- A call that asks for frames while a buffer is at hand returns, and with one frame at
least. -/
def CarriesAudio (cfg : Config α) : Prop :=
  ∀ (s s₁ : State cfg) (count : ℕ) (destination : List α), Reachable s → 0 < count →
    (s.preparedBuffers ≠ [] ∨ s.currentBuffer ≠ none) → step s (.write count destination) = some s₁ →
    (∀ u t, Reaches step (fun _ => True) s₁ u → u.returns = s.returns → u.owner.draining = false →
      step u .io = some t → t.returns ≠ s.returns → ∃ r, t.returns = s.returns ++ [r] ∧ 1 ≤ r.written) ∧
    ∀ u, Reaches step (fun _ => True) s₁ u → ∀ e : Execution step Scheduled, e.state 0 = u → e.WeaklyFair →
      ∃ n, (e.state n).io = .idle

/-- A buffer at hand has frames. -/
theorem Reachable.available_pos {s : State cfg} (h : Reachable s) (hframes : 1 ≤ cfg.destinationFrames)
    (hidle : s.io = .idle) (hbuff : s.preparedBuffers ≠ [] ∨ s.currentBuffer ≠ none) : 1 ≤ available s := by
  obtain ⟨p,hp,hunused⟩ : ∃ p ∈ readable s, 1 ≤ unused s p := by
    rcases hbuff with hprep | hcur
    · obtain ⟨p,hp⟩ := List.exists_mem_of_ne_nil _ hprep
      refine ⟨p,List.mem_append_right _ hp,?_⟩
      rw [unused,h.fidelity.fresh p hp]
      exact hframes
    · obtain ⟨p,hp⟩ := Option.ne_none_iff_exists'.mp hcur
      refine ⟨p,List.mem_append_left _ (by simp [hidle,hp]),?_⟩
      have hused := (h.held hframes).current (by rw [hidle]; rfl) p hp
      rw [unused]
      omega
  exact hunused.trans (List.single_le_sum (by simp) _ (List.mem_map_of_mem hp))

theorem carriesAudio_of_pos (hframes : 1 ≤ cfg.destinationFrames) : CarriesAudio cfg := by
  intro s s₁ count destination h hcount hbuff hwrite
  have hs₁ : Reachable s₁ := Reaches.tail h trivial hwrite
  refine ⟨fun u t hu hreturns hdrain hstep hne => ?_,fun u hu e he hfair => ?_⟩
  · obtain ⟨calls,hd⟩ := During.of_reaches h hframes hwrite hu hreturns
    obtain ⟨r,hr,hexact⟩ := hd.returned h hframes hwrite hu hdrain hstep hne
    have hleast := hexact.least
    have havailable := h.available_pos hframes (beginWrite_eq hwrite).1 hbuff
    exact ⟨r,hr,by omega⟩
  · exact call_returns (Reaches.trans hs₁ hu) hframes e he hfair

theorem reachable_allocating {n : ℕ} (hn : n ≤ cfg.mixahead) : ∃ s : State cfg, Reachable s ∧ s.owner = .allocating n ∧
    s.worker = .unstarted ∧ s.returnedBuffers = (List.range n).map .heap ∧ s.preparedBuffers = [] ∧
    s.semaphore = 0 ∧ s.io = .idle ∧ s.currentBuffer = none := by
  induction n with
  | zero => exact ⟨initial cfg,.refl,rfl,rfl,rfl,rfl,rfl,rfl,rfl⟩
  | succ n ih =>
    obtain ⟨s,hs,howner,hworker,hret,hprep,hsem,hio,hcur⟩ := ih (by omega)
    have hlt : n < cfg.mixahead := by omega
    have hrun : run step s [.owner,.owner] = some { s.setHeap (.heap n)
        { type := .buffer, data := (List.range cfg.bufferSize).map (cfg.unspecified n) } with
        allocated := n+1
        returnedBuffers := s.returnedBuffers ++ [.heap n]
        owner := .allocating (n+1) } := by
      simp [run,step,ownerThread,howner,hlt,push,State.setHeap,hret]
    refine ⟨_,Reaches.trans hs (Reaches.of_run (fun _ _ => trivial) hrun),rfl,hworker,?_,hprep,hsem,hio,hcur⟩
    rw [List.range_succ,List.map_append]
    exact congrArg (· ++ [_]) hret

theorem reachable_running (hmix : 1 ≤ cfg.mixahead) : ∃ s : State cfg, Reachable s ∧ s.owner = .running ∧
    s.worker = .waiting ∧ s.returnedBuffers = (List.range cfg.mixahead).map .heap ∧ s.preparedBuffers = [] ∧
    0 < s.semaphore ∧ s.io = .idle ∧ s.currentBuffer = none := by
  obtain ⟨s,hs,howner,hworker,hret,hprep,hsem,hio,hcur⟩ := reachable_allocating (Nat.le_refl cfg.mixahead)
  have hrun : run step s [.owner,.owner,.owner] = some { s with
      semaphore := s.semaphore+cfg.mixahead, worker := .waiting, owner := .running } := by
    simp [run,step,ownerThread,howner]
  exact ⟨_,Reaches.trans hs (Reaches.of_run (fun _ _ => trivial) hrun),rfl,rfl,hret,hprep,by dsimp only; omega,
    hio,hcur⟩

theorem reachable_prepared (hmix : 1 ≤ cfg.mixahead) : ∃ s : State cfg, Reachable s ∧ s.owner = .running ∧
    s.io = .idle ∧ s.currentBuffer = none ∧ s.preparedBuffers = [.heap 0] := by
  obtain ⟨s,hs,howner,hworker,hret,hprep,hsem,hio,hcur⟩ := reachable_running hmix
  obtain ⟨m,hm⟩ := Nat.exists_eq_add_of_le' hmix
  rw [hm,List.range_succ_eq_map,List.map_cons] at hret
  have htype : (s.heap (.heap 0)).type = .buffer := by
    refine hs.ownership.heapType 0 ?_
    rw [hs.ownership.allocated,howner]
    exact hmix
  obtain ⟨t,hrun,hfields⟩ : ∃ t, run step s (List.replicate 6 .worker) = some t ∧
      (t.owner = s.owner ∧ t.io = s.io ∧ t.currentBuffer = s.currentBuffer ∧ t.preparedBuffers = [.heap 0]) := by
    refine ⟨_,by simp [run,step,workerThread,hworker,hsem,hret,htype,push,hprep,State.setHeap,hm]; rfl,?_⟩
    simp
  exact ⟨t,Reaches.trans hs (Reaches.of_run (fun _ _ => trivial) hrun),hfields.1.trans howner,hfields.2.1.trans hio,
    hfields.2.2.1.trans hcur,hfields.2.2.2⟩

/-- A call that is offered an empty buffer hands it back and returns nothing. -/
theorem write_returns_zero (hframes : cfg.destinationFrames = 0) {s : State cfg} (hs : Reachable s)
    (howner : s.owner = .running) (hio : s.io = .idle) (hcur : s.currentBuffer = none) {p : Pointer}
    (hprep : s.preparedBuffers = [p]) (destination : List α) (hroom : cfg.destinationChannels ≤ destination.length) :
    ∃ s₁ u t r, step s (.write 1 destination) = some s₁ ∧ Reaches step (fun _ => True) s₁ u ∧ u.returns = s.returns ∧
      u.owner.draining = false ∧ step u .io = some t ∧ t.returns = s.returns ++ [r] ∧ r.written = 0 := by
  have hused : (s.heap p).used = 0 := hs.fidelity.fresh p (by simp [hprep])
  have hwrite : step s (.write 1 destination) = some { s with io := .acquiring ⟨1,1,0,destination,0⟩ } := by
    simp [step,beginWrite,hio,howner,hroom]
  have hfull : s.returnedBuffers.length < cfg.mixahead := by
    have hlen := hs.ownership.length_places
    have hbound := hs.ownership.bound
    have hnone : stopInPlay s = [] := by rw [stopInPlay,howner]; rfl
    rw [hprep,hnone] at hlen
    simp only [List.length_singleton,List.length_nil] at hlen
    omega
  obtain ⟨u,hrun,hfields⟩ : ∃ u, run step { s with io := .acquiring ⟨1,1,0,destination,0⟩ }
      (List.replicate 5 .io) = some u ∧ (u.returns = s.returns ∧ u.owner = s.owner ∧
        ∃ w, u.io = .returning w 0 ∧ w.writtenTotal = 0) := by
    refine ⟨_,by simp [run,step,ioThread,acquireBuffer,hcur,hprep,willWrite,hframes,hused,push,hfull,State.setHeap]; rfl,?_⟩
    simp [WriteCall.copy]
  obtain ⟨hreturns,howner',w,hpc,hwritten⟩ := hfields
  refine ⟨_,u,_,⟨w.requested,w.writtenTotal,w.destination⟩,hwrite,Reaches.of_run (fun _ _ => trivial) hrun,hreturns,?_,
    by simp only [step,ioThread,hpc,lt_irrefl,if_false]; rfl,?_,hwritten⟩
  · rw [howner',howner]
    rfl
  · simp [hreturns,WriteCall.advance]

theorem not_carriesAudio (hframes : cfg.destinationFrames = 0) (hmix : 1 ≤ cfg.mixahead) : ¬ CarriesAudio cfg := by
  intro hall
  obtain ⟨s,hs,howner,hio,hcur,hprep⟩ := reachable_prepared hmix
  obtain ⟨s₁,u,t,r,hwrite,hu,hreturns,hdrain,hstep,hr,hzero⟩ := write_returns_zero hframes hs howner hio hcur hprep
    (List.replicate cfg.destinationChannels 0) (by simp)
  obtain ⟨r',hr',hpos⟩ := (hall s s₁ 1 _ hs Nat.one_pos (Or.inl (by simp [hprep])) hwrite).1 u t hu hreturns hdrain hstep
    (by simp [hr])
  obtain rfl : r = r' := by simpa [hr] using hr'
  omega

/-- Every buffer carries audio exactly if the quotient is no multiple of `2^32`, zero in
particular. -/
theorem carriesAudio_iff {sourceFrames sourceSr destinationSr : ℕ} (hsource : 0 < sourceFrames)
    (hsource31 : sourceFrames < 2^31) (hdest : 0 < destinationSr) (hdest31 : destinationSr < 2^31)
    (hframes : (cfg.destinationFrames : ℤ) = BlockLength.workerFrames sourceFrames sourceSr destinationSr)
    (hmix : 1 ≤ cfg.mixahead) : CarriesAudio cfg ↔ ¬ 2^32 ∣ sourceFrames*destinationSr/sourceSr := by
  have hzero : BlockLength.workerFrames sourceFrames sourceSr destinationSr = 0 ↔
      (2^32 : ℤ) ∣ sourceFrames*destinationSr/sourceSr :=
    BlockLength.workerFrames_eq_zero_iff (by omega) (by omega) (by omega) (by omega)
  have hcast : (2^32 : ℤ) ∣ sourceFrames*destinationSr/sourceSr ↔ 2^32 ∣ sourceFrames*destinationSr/sourceSr := by
    rw [← Int.natCast_dvd_natCast,Int.natCast_ediv,Nat.cast_mul,Nat.cast_pow,Nat.cast_ofNat]
  rw [← hframes,hcast] at hzero
  rw [← hzero]
  constructor
  · intro hall hnone
    exact not_carriesAudio (by exact_mod_cast hnone) hmix hall
  · intro hsome
    exact carriesAudio_of_pos (by omega)

/-- A second of mono at 48000 Hz, for a device at 44100 Hz. -/
theorem carriesAudio_second : CarriesAudio { counting with destinationFrames := 44100 } ↔ ¬ 2^32 ∣ 48000*44100/48000 :=
  carriesAudio_iff (by decide) (by decide) (by decide) (by decide) (by decide) (by decide)

/-- Blocks of one frame. -/
theorem empty_buffers_cycle : ¬ ∀ (cfg : Config ℕ) (sourceFrames sourceSr destinationSr : ℕ), 0 < sourceFrames →
    sourceFrames < 2^31 → 0 < sourceSr → sourceSr < 2^31 → 0 < destinationSr → destinationSr < 2^31 →
    1 ≤ cfg.mixahead → (cfg.destinationFrames : ℤ) = BlockLength.workerFrames sourceFrames sourceSr destinationSr →
    CarriesAudio cfg := by
  intro hall
  have hcarries : CarriesAudio { counting with destinationFrames := 0 } :=
    hall _ 1 48000 44100 (by decide) (by decide) (by decide) (by decide) (by decide) (by decide) (by decide) (by decide)
  exact not_carriesAudio rfl (by decide) hcarries

end OutputWorkerThread
end AudioOutput
