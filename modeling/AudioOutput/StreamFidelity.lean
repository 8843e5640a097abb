import AudioOutput.BufferOwnership

/-!
# The frames that reach the device

Frames go from the converter through the prepared buffers and the buffer being
copied into the destinations of `write`. At every moment what has been produced
is what has been delivered followed by what is still on the way.
-/

namespace AudioOutput
namespace OutputWorkerThread

open Transition

universe u
variable {α : Type u} (cfg : Config α)

def converterAfter : ℕ → cfg.converter.State
  | 0 => cfg.converter.initial
  | n+1 => (cfg.converter.write (converterAfter n) cfg.destinationFrames).2

def block (n : ℕ) : List α := (cfg.converter.write (converterAfter cfg n) cfg.destinationFrames).1

/-- The results of the successive calls, one after the other. -/
def stream [Zero α] : Stream' α := BlockStream.concat cfg.bufferSize (block cfg)

variable {cfg}

theorem length_block (n : ℕ) : (block cfg n).length = cfg.bufferSize := by
  rw [block,cfg.converter.length_write,Config.bufferSize,Nat.mul_comm]

@[simp] def IoPc.copied (channels : ℕ) : IoPc α → List α
  | .idle => []
  | .acquiring w | .copying w => w.destination.take w.offset
  | .releasing w _ n | .signalling w n | .clearing w n | .returning w n =>
    w.destination.take (w.offset+channels*n)

/-- The frames of the calls that have returned, cut to the returned counts. -/
def framesReturned (s : State cfg) : List α :=
  s.returns.flatMap fun r => r.destination.take (cfg.destinationChannels*r.written)

def delivered (s : State cfg) : List α := framesReturned s ++ s.io.copied cfg.destinationChannels

def rest (s : State cfg) (p : Pointer) : List α :=
  (s.heap p).data.drop (cfg.destinationChannels*(s.heap p).used)

@[simp] def WorkerPc.mixedHands : WorkerPc → List Pointer
  | .pushing cmd => [cmd]
  | _ => []

def inFlight (s : State cfg) : List Pointer :=
  s.io.hands s.currentBuffer ++ s.preparedBuffers ++ s.worker.mixedHands

/-- The locals of a call in progress, with the frames copied but not accounted for. -/
def IoPc.call : IoPc α → Option (WriteCall α × ℕ)
  | .idle => none
  | .acquiring w | .copying w => some (w,0)
  | .releasing w _ n | .signalling w n | .clearing w n | .returning w n => some (w,n)

structure Fidelity (s : State cfg) : Prop where
  size : ∀ i < s.allocated, (s.heap (.heap i)).data.length = cfg.bufferSize
  fresh : ∀ p ∈ s.preparedBuffers, (s.heap p).used = 0
  reset : ∀ cmd, (s.worker = .mixing cmd ∨ s.worker = .pushing cmd) → (s.heap cmd).used = 0
  used : ∀ p ∈ s.io.hands s.currentBuffer, (s.heap p).used ≤ cfg.destinationFrames
  emptied : ∀ w buff n, s.io = .releasing w buff n → (s.heap buff).used = cfg.destinationFrames
  converter : s.converter = converterAfter cfg s.produced.length
  produced : s.produced = (List.range s.produced.length).map (block cfg)
  call : ∀ w n, s.io.call = some (w,n) → n ≤ w.count ∧ w.offset = cfg.destinationChannels*w.writtenTotal ∧
    w.offset+cfg.destinationChannels*w.count ≤ w.destination.length
  returns : ∀ r ∈ s.returns, cfg.destinationChannels*r.written ≤ r.destination.length
  pipeline : s.owner.draining = false → s.produced.flatten = delivered s ++ (inFlight s).flatMap (rest s)

theorem initial_fidelity : Fidelity (initial cfg) := by
  constructor <;>
    simp [initial,converterAfter,delivered,framesReturned,inFlight,IoPc.call]

theorem Ownership.worker_exclusive {s : State cfg} (hs : Ownership s) {cmd : Pointer}
    (hcmd : s.worker = .resetting cmd ∨ s.worker = .mixing cmd ∨ s.worker = .pushing cmd) :
    ∃ i < s.allocated, cmd = .heap i ∧ cmd ∉ s.preparedBuffers ∧ cmd ∉ s.io.hands s.currentBuffer := by
  have hhands : s.worker.hands = [cmd] := by rcases hcmd with h | h | h <;> rw [h] <;> rfl
  have hmem : cmd ∈ places s := by simp [places,-WorkerPc.hands,hhands]
  rcases hs.cases_of_mem hmem with ⟨i,hi,rfl⟩ | ⟨hstack,_⟩
  · have hone := hs.count_heap hi
    rw [hhands,List.count_singleton_self] at hone
    refine ⟨i,hi,rfl,?_,?_⟩ <;> rw [← List.count_eq_zero] <;> omega
  · exact absurd hstack (hs.stackHeld cmd hcmd)

theorem Ownership.io_exclusive {s : State cfg} (hs : Ownership s) {buff : Pointer}
    (hbuff : s.io.hands s.currentBuffer = [buff]) :
    ∃ i < s.allocated, buff = .heap i ∧ buff ∉ s.preparedBuffers ∧ buff ∉ s.worker.hands := by
  have hmem : buff ∈ places s := by simp [places,-IoPc.hands,hbuff]
  rcases hs.cases_of_mem hmem with ⟨i,hi,rfl⟩ | ⟨hstack,_⟩
  · have hone := hs.count_heap hi
    rw [hbuff,List.count_singleton_self] at hone
    refine ⟨i,hi,rfl,?_,?_⟩ <;> rw [← List.count_eq_zero] <;> omega
  · have hfree := hs.stackFree
    subst hstack
    simp [-IoPc.hands,hbuff] at hfree

theorem Ownership.inFlight_heap {s : State cfg} (hs : Ownership s) {p : Pointer} (hp : p ∈ inFlight s) :
    ∃ i < s.allocated, p = .heap i := by
  have hhands : ∀ q ∈ s.worker.mixedHands, q ∈ s.worker.hands ∧ q ≠ .stack := by
    intro q hq
    cases hw : s.worker <;> simp_all 
    exact hs.stackHeld _ (Or.inr (Or.inr hw))
  have hfree := hs.stackFree
  have hmem : p ∈ places s ∧ p ≠ .stack := by
    simp only [inFlight,List.mem_append,not_or] at hp hfree
    simp only [places,List.mem_append]
    rcases hp with (hp | hp) | hp
    · exact ⟨by simp [-IoPc.hands,hp],fun h => hfree.1.2 (h ▸ hp)⟩
    · exact ⟨by simp [hp],fun h => hfree.1.1 (h ▸ hp)⟩
    · exact ⟨by simp [-WorkerPc.hands,(hhands p hp).1],(hhands p hp).2⟩
  rcases hs.cases_of_mem hmem.1 with hheap | ⟨hstack,_⟩
  · exact hheap
  · exact absurd hstack hmem.2

theorem willWrite_eq_min (cfg : Config α) (c : AudioCommand α) (count : ℕ) :
    willWrite cfg c count = min (cfg.destinationFrames-c.used) count := by
  unfold willWrite
  dsimp only
  split <;> omega

theorem willWrite_le (cfg : Config α) (c : AudioCommand α) (count : ℕ) :
    willWrite cfg c count ≤ count ∧ willWrite cfg c count ≤ cfg.destinationFrames-c.used := by
  rw [willWrite_eq_min]
  exact ⟨min_le_right _ _,min_le_left _ _⟩

theorem Fidelity.splice_size {s : State cfg} (hf : Fidelity s) {j : ℕ} (hj : j < s.allocated) {xs : List α}
    (hxs : xs.length = cfg.destinationFrames*cfg.destinationChannels) :
    Buffer.splice (s.heap (.heap j)).data 0 xs = xs ∧ xs.length = cfg.bufferSize := by
  have hlen : xs.length = cfg.bufferSize := by rw [hxs,Config.bufferSize,Nat.mul_comm]
  exact ⟨Buffer.splice_all _ (hlen.trans (hf.size j hj).symm),hlen⟩

variable [Zero α]

theorem Move.size {s t : State cfg} {a : Action α} (h : Move s a t) (hs : Ownership s) (hf : Fidelity s) :
    ∀ i < t.allocated, (t.heap (.heap i)).data.length = cfg.bufferSize := by
  intro i hi
  have hold := hf.size i
  cases h with
  | reset hpc =>
    obtain ⟨j,hj,rfl,_⟩ := hs.worker_exclusive (Or.inl hpc)
    obtain ⟨hall,hlen⟩ := hf.splice_size hj (List.length_replicate (a := (0 : α)))
    by_cases hij : i = j
    · subst hij
      simpa [State.setHeap,hall] using hlen
    · simpa [State.setHeap,hij] using hold hi
  | mix hpc =>
    obtain ⟨j,hj,rfl,_⟩ := hs.worker_exclusive (Or.inr (Or.inl hpc))
    obtain ⟨hall,hlen⟩ := hf.splice_size hj (cfg.converter.length_write s.converter _)
    by_cases hij : i = j
    · subst hij
      simpa [State.setHeap,hall] using hlen
    · simpa [State.setHeap,hij] using hold hi
  | @copyAll w buff hpc hcur hused =>
    by_cases hp : Pointer.heap i = buff
    · subst hp
      simpa [State.setHeap] using hold hi
    · simpa [State.setHeap,hp] using hold hi
  | @copyPart w buff hpc hcur hused =>
    by_cases hp : Pointer.heap i = buff
    · subst hp
      simpa [State.setHeap] using hold hi
    · simpa [State.setHeap,hp] using hold hi
  | @allocate j hpc hj =>
    have hall := hs.allocated
    rw [hpc] at hall
    by_cases hij : i = j
    · simp [State.setHeap,hij]
    · have hlt : i < s.allocated := by simp_all; omega
      simpa [State.setHeap,hij] using hold hlt
  | beginDestroy hpc => simpa [State.setHeap] using hold hi
  | count hpc => simpa using hold (by simpa using hi)
  | _ => exact hold hi

/-- A buffer on its way to the device is stored into by the I/O thread alone, once
it is there. -/
theorem Move.heap_inFlight {s t : State cfg} {a : Action α} (h : Move s a t) (hs : Ownership s) {p : Pointer}
    (hp : p ∈ inFlight s) (hhands : p ∈ s.io.hands s.currentBuffer → a = .io → ∀ w, s.io ≠ .copying w) :
    t.heap p = s.heap p := by
  cases h with
  | reset hpc =>
    obtain ⟨j,_,rfl,hprep,hio⟩ := hs.worker_exclusive (Or.inl hpc)
    have hne : p ≠ .heap j := by
      rintro rfl
      simp [-IoPc.hands,inFlight,hpc,hprep,hio] at hp
    simp [State.setHeap,hne]
  | mix hpc =>
    obtain ⟨j,_,rfl,hprep,hio⟩ := hs.worker_exclusive (Or.inr (Or.inl hpc))
    have hne : p ≠ .heap j := by
      rintro rfl
      simp [-IoPc.hands,inFlight,hpc,hprep,hio] at hp
    simp [State.setHeap,hne]
  | @copyAll w buff hpc hcur hused =>
    have hne : p ≠ buff := by
      rintro rfl
      exact hhands (by simp [hpc,hcur]) rfl w hpc
    simp [State.setHeap,hne]
  | @copyPart w buff hpc hcur hused =>
    have hne : p ≠ buff := by
      rintro rfl
      exact hhands (by simp [hpc,hcur]) rfl w hpc
    simp [State.setHeap,hne]
  | @allocate i hpc hi =>
    obtain ⟨j,hj,rfl⟩ := hs.inFlight_heap hp
    have hall := hs.allocated
    simp only [hpc,OwnerPc.allocated] at hall
    have hne : j ≠ i := by omega
    simp [State.setHeap,hne]
  | beginDestroy hpc =>
    obtain ⟨j,hj,rfl⟩ := hs.inFlight_heap hp
    simp [State.setHeap]
  | count hpc => simp
  | _ => rfl

omit [Zero α] in
theorem Ownership.prepared_exclusive {s : State cfg} (hs : Ownership s) {p : Pointer} (hp : p ∈ s.preparedBuffers) :
    p ∉ s.io.hands s.currentBuffer := by
  obtain ⟨i,hi,rfl⟩ := hs.inFlight_heap (p := p) (by simp [inFlight,hp])
  have hone := hs.count_heap hi
  have hpos := List.count_pos_iff.mpr hp
  rw [← List.count_eq_zero]
  omega

theorem Move.heap_prepared {s t : State cfg} {a : Action α} (h : Move s a t) (hs : Ownership s) {p : Pointer}
    (hp : p ∈ s.preparedBuffers) : t.heap p = s.heap p :=
  h.heap_inFlight hs (by simp [inFlight,hp]) fun hmem => absurd hmem (hs.prepared_exclusive hp)

theorem Move.fresh {s t : State cfg} {a : Action α} (h : Move s a t) (hs : Ownership s) (hf : Fidelity s) :
    ∀ p ∈ t.preparedBuffers, (t.heap p).used = 0 := by
  intro p hp
  by_cases hold : p ∈ s.preparedBuffers
  · rw [h.heap_prepared hs hold]
    exact hf.fresh p hold
  · cases h with
    | push hpc hroom =>
      obtain rfl : p = _ := by simpa [hold] using hp
      exact hf.reset p (Or.inr hpc)
    | count hpc => exact absurd (by simpa using hp) hold
    | acquireNone hpc hcur hq => cases hp
    | acquireSome hpc hcur hq => exact absurd (by rw [hq]; exact List.mem_cons_of_mem _ hp) hold
    | drainPrepared hpc hq => exact absurd (by rw [hq]; exact List.mem_cons_of_mem _ hp) hold
    | _ => exact absurd hp hold

/-- `resetting` clears the count of used frames and nobody else touches the buffer. -/
theorem Move.reset_used {s t : State cfg} {a : Action α} (h : Move s a t) (hs : Ownership s) (hf : Fidelity s)
    {cmd : Pointer} (hpc' : t.worker = .mixing cmd ∨ t.worker = .pushing cmd) : (t.heap cmd).used = 0 := by
  have hold := hf.reset cmd
  have hhands (hw : s.worker = .mixing cmd ∨ s.worker = .pushing cmd) := hs.worker_exclusive (Or.inr hw)
  cases h with
  | reset hpc =>
    obtain rfl : _ = cmd := by simpa using hpc'
    simp [State.setHeap]
  | mix hpc =>
    obtain rfl : _ = cmd := by simpa using hpc'
    simpa [State.setHeap] using hold (Or.inl hpc)
  | @copyAll w buff hpc hcur hused =>
    obtain ⟨j,_,rfl,_,hio⟩ := hhands hpc'
    have hne : Pointer.heap j ≠ buff := fun he => hio (by simp [hpc,hcur,he])
    simpa [State.setHeap,hne] using hold hpc'
  | @copyPart w buff hpc hcur hused =>
    obtain ⟨j,_,rfl,_,hio⟩ := hhands hpc'
    have hne : Pointer.heap j ≠ buff := fun he => hio (by simp [hpc,hcur,he])
    simpa [State.setHeap,hne] using hold hpc'
  | @allocate i hpc hi =>
    have hworker := hs.unstarted.mp (by rw [hpc]; rfl)
    simp [State.setHeap,hworker] at hpc'
  | beginDestroy hpc =>
    obtain ⟨j,_,rfl,_⟩ := hhands hpc'
    simpa [State.setHeap] using hold hpc'
  | wait | pop | stop | take | push | count | start => simp at hpc'
  | _ => exact hold hpc'

/-- A buffer in the I/O thread's hands never has more frames used than it holds. -/
theorem Move.used {s t : State cfg} {a : Action α} (h : Move s a t) (hs : Ownership s) (hf : Fidelity s)
    {p : Pointer} (hp : p ∈ t.io.hands t.currentBuffer) : (t.heap p).used ≤ cfg.destinationFrames := by
  have hframe (hmem : p ∈ s.io.hands s.currentBuffer) (hcopy : a = .io → ∀ w, s.io ≠ .copying w) :
      (t.heap p).used ≤ cfg.destinationFrames := by
    rw [h.heap_inFlight hs (by simp [-IoPc.hands,inFlight,hmem]) fun _ => hcopy]
    exact hf.used p hmem
  cases h with
  | acquireSome hpc hcur hq =>
    obtain rfl : p = _ := by simpa using hp
    rw [hf.fresh p (by simp [hq])]
    exact Nat.zero_le _
  | acquireHeld hpc hcur => exact hframe (by simpa [hpc] using hp) (by simp [hpc])
  | copyAll hpc hcur hused =>
    obtain rfl : p = _ := by simpa [State.setHeap,hcur] using hp
    simp [State.setHeap,hused]
  | @copyPart w buff hpc hcur hused =>
    obtain rfl : p = buff := by simpa [State.setHeap,hcur] using hp
    have hle := willWrite_le cfg (s.heap p) w.count
    have hbefore := hf.used p (by simp [hpc,hcur])
    simp only [State.setHeap,Function.update_self]
    omega
  | again hpc hn => exact hframe (by simpa [hpc] using hp) (by simp [hpc])
  | finish hpc => exact hframe (by simpa [hpc] using hp) (by simp [hpc])
  | beginWrite hpc howner hroom => exact hframe (by simpa [hpc] using hp) (by simp)
  | spin => exact hf.used p hp
  | count hpc => exact hframe (by simpa using hp) (by simp)
  | acquireNone hpc hcur hq => simp at hp
  | copyNone hpc hcur => simp [hcur] at hp
  | release hpc hroom => simp at hp
  | signal hpc => simp at hp
  | clear hpc => simp at hp
  | _ => exact hframe hp (by simp)

theorem Move.emptied {s t : State cfg} {a : Action α} (h : Move s a t) (hs : Ownership s) (hf : Fidelity s)
    {w : WriteCall α} {buff : Pointer} {n : ℕ} (hio : t.io = .releasing w buff n) :
    (t.heap buff).used = cfg.destinationFrames := by
  by_cases hold : s.io = .releasing w buff n
  · have hmem : buff ∈ s.io.hands s.currentBuffer := by rw [hold,hs.releasing w buff n hold]; simp
    rw [h.heap_inFlight hs (by simp [-IoPc.hands,inFlight,hmem]) fun _ _ => by simp [hold]]
    exact hf.emptied w buff n hold
  · cases h with
    | copyAll hpc hcur hused =>
      obtain ⟨rfl,rfl,rfl⟩ : _ ∧ _ ∧ _ := by simpa using hio
      simpa [State.setHeap] using hused
    | count hpc => exact absurd (by simpa using hio) hold
    | _ => first
      | exact absurd hio hold
      | cases hio

theorem Move.produced {s t : State cfg} {a : Action α} (h : Move s a t) (hf : Fidelity s) :
    t.converter = converterAfter cfg t.produced.length ∧
      t.produced = (List.range t.produced.length).map (block cfg) := by
  cases h with
  | mix hpc =>
    constructor
    · simp [converterAfter,← hf.converter]
    · rw [List.length_append,List.length_singleton,List.range_succ,List.map_append,← hf.produced]
      simp [block,← hf.converter]
  | count hpc => simpa using ⟨hf.converter,hf.produced⟩
  | _ => exact ⟨hf.converter,hf.produced⟩

omit [Zero α] in
/-- A copy takes the frames out of the buffer that it says, and there is room for them. -/
theorem Fidelity.copied {s : State cfg} (hs : Ownership s) (hf : Fidelity s) {w : WriteCall α} {buff : Pointer}
    (hpc : s.io = .copying w) (hcur : s.currentBuffer = some buff) {n : ℕ}
    (hn : n = willWrite cfg (s.heap buff) w.count) {copied : List α}
    (hcopied : copied = Buffer.slice (s.heap buff).data (cfg.destinationChannels*(s.heap buff).used)
      (cfg.destinationChannels*n)) :
    copied.length = cfg.destinationChannels*n ∧ w.offset+copied.length ≤ w.destination.length := by
  have hle := willWrite_le cfg (s.heap buff) w.count
  have hmem : buff ∈ s.io.hands s.currentBuffer := by simp [hpc,hcur]
  obtain ⟨i,hi,rfl⟩ := hs.inFlight_heap (p := buff) (by simp [-IoPc.hands,inFlight,hmem])
  have hused := hf.used _ hmem
  obtain ⟨_,_,hroom⟩ := hf.call w 0 (by rw [hpc]; rfl)
  have hfits : cfg.destinationChannels*(s.heap (.heap i)).used+cfg.destinationChannels*n ≤
      (s.heap (.heap i)).data.length := by
    rw [hf.size i hi,Config.bufferSize,← Nat.mul_add]
    exact Nat.mul_le_mul_left _ (by omega)
  have hlen : copied.length = cfg.destinationChannels*n := by rw [hcopied,Buffer.length_slice _ hfits]
  refine ⟨hlen,?_⟩
  rw [hlen]
  exact (Nat.add_le_add_left (Nat.mul_le_mul_left _ (hn ▸ hle.1)) _).trans hroom

omit [Zero α] in
/-- The frames taken out of a buffer end up behind those copied before, and the
buffer keeps the others. -/
theorem Fidelity.copy {s : State cfg} (hs : Ownership s) (hf : Fidelity s) {w : WriteCall α} {buff : Pointer}
    (hpc : s.io = .copying w) (hcur : s.currentBuffer = some buff) {n : ℕ}
    (hn : n = willWrite cfg (s.heap buff) w.count) :
    (w.copy cfg (s.heap buff)).destination.length = w.destination.length ∧
    (w.copy cfg (s.heap buff)).destination.take (w.offset+cfg.destinationChannels*n) ++
      (s.heap buff).data.drop (cfg.destinationChannels*((s.heap buff).used+n)) =
      w.destination.take w.offset ++ rest s buff := by
  obtain ⟨hlen,hdst⟩ := hf.copied hs hpc hcur hn rfl
  simp only [WriteCall.copy,← hn]
  constructor
  · exact Buffer.length_splice _ hdst
  · have htake := Buffer.take_splice _ hdst
    rw [hlen] at htake
    rw [htake,List.append_assoc,Nat.mul_add,Buffer.slice_append_drop,rest]

omit [Zero α] in
theorem Fidelity.copy_drop {s : State cfg} (hs : Ownership s) (hf : Fidelity s) {w : WriteCall α} {buff : Pointer}
    (hpc : s.io = .copying w) (hcur : s.currentBuffer = some buff) {n : ℕ}
    (hn : n = willWrite cfg (s.heap buff) w.count) :
    (w.copy cfg (s.heap buff)).destination.drop (w.offset+cfg.destinationChannels*n) =
      w.destination.drop (w.offset+cfg.destinationChannels*n) := by
  obtain ⟨hlen,hdst⟩ := hf.copied hs hpc hcur hn rfl
  simp only [WriteCall.copy,← hn]
  have hdrop := Buffer.drop_splice _ hdst
  rwa [hlen] at hdrop

theorem Move.call {s t : State cfg} {a : Action α} (h : Move s a t) (hs : Ownership s) (hf : Fidelity s)
    {w : WriteCall α} {n : ℕ} (hio : t.io.call = some (w,n)) :
    n ≤ w.count ∧ w.offset = cfg.destinationChannels*w.writtenTotal ∧
      w.offset+cfg.destinationChannels*w.count ≤ w.destination.length := by
  cases h with
  | @copyAll v buff hpc hcur hused =>
    obtain ⟨rfl,rfl⟩ : _ ∧ _ := by simpa [IoPc.call] using hio
    obtain ⟨_,hoff,hroom⟩ := hf.call v 0 (by rw [hpc]; rfl)
    have hlen := (hf.copy hs hpc hcur rfl).1
    exact ⟨(willWrite_le cfg _ _).1,hoff,by rw [hlen]; exact hroom⟩
  | @copyPart v buff hpc hcur hused =>
    obtain ⟨rfl,rfl⟩ : _ ∧ _ := by simpa [IoPc.call] using hio
    obtain ⟨_,hoff,hroom⟩ := hf.call v 0 (by rw [hpc]; rfl)
    have hlen := (hf.copy hs hpc hcur rfl).1
    exact ⟨(willWrite_le cfg _ _).1,hoff,by rw [hlen]; exact hroom⟩
  | @again v m hpc hm =>
    obtain ⟨rfl,rfl⟩ : _ ∧ _ := by simpa [IoPc.call] using hio
    obtain ⟨hle,hoff,hroom⟩ := hf.call v m (by rw [hpc]; rfl)
    obtain ⟨k,hk⟩ := Nat.exists_eq_add_of_le hle
    simp only [WriteCall.advance,hk,Nat.add_sub_cancel_left,Nat.mul_add,← Nat.add_assoc] at hroom ⊢
    exact ⟨Nat.zero_le _,by rw [hoff],hroom⟩
  | beginWrite hpc howner hroom =>
    obtain ⟨rfl,rfl⟩ : _ ∧ _ := by simpa [IoPc.call] using hio
    exact ⟨Nat.zero_le _,rfl,by rwa [Nat.zero_add,Nat.mul_comm]⟩
  | finish hpc => simp [IoPc.call] at hio
  | count hpc => exact hf.call w n (by simpa using hio)
  | acquireNone hpc hcur hq => exact hf.call w n (by rw [hpc]; exact hio)
  | acquireSome hpc hcur hq => exact hf.call w n (by rw [hpc]; exact hio)
  | acquireHeld hpc hcur => exact hf.call w n (by rw [hpc]; exact hio)
  | copyNone hpc hcur => exact hf.call w n (by rw [hpc]; exact hio)
  | release hpc hroom => exact hf.call w n (by rw [hpc]; exact hio)
  | signal hpc => exact hf.call w n (by rw [hpc]; exact hio)
  | clear hpc => exact hf.call w n (by rw [hpc]; exact hio)
  | _ => exact hf.call w n hio

theorem Move.returns {s t : State cfg} {a : Action α} (h : Move s a t) (hf : Fidelity s) :
    ∀ r ∈ t.returns, cfg.destinationChannels*r.written ≤ r.destination.length := by
  intro r hr
  cases h with
  | @finish w hpc =>
    rcases List.mem_append.mp hr with hr | hr
    · exact hf.returns r hr
    · obtain rfl := List.mem_singleton.mp hr
      obtain ⟨_,hoff,hroom⟩ := hf.call w 0 (by rw [hpc]; rfl)
      dsimp only
      omega
  | count hpc => exact hf.returns r (by simpa using hr)
  | _ => exact hf.returns r hr

omit [Zero α] in
theorem rest_congr {s t : State cfg} {l : List Pointer} (h : ∀ p ∈ l, t.heap p = s.heap p) :
    l.flatMap (rest t) = l.flatMap (rest s) := by
  refine List.flatMap_congr fun p hp => ?_
  rw [rest,rest,h p hp]

omit [Zero α] in
theorem Fidelity.rest_emptied {s : State cfg} (hs : Ownership s) (hf : Fidelity s) {w : WriteCall α} {buff : Pointer}
    {n : ℕ} (hpc : s.io = .releasing w buff n) : rest s buff = [] := by
  have hmem : buff ∈ inFlight s := by simp [inFlight,hpc,hs.releasing w buff n hpc]
  obtain ⟨i,hi,rfl⟩ := hs.inFlight_heap hmem
  rw [rest,hf.emptied w _ n hpc]
  exact List.drop_eq_nil_of_le (hf.size i hi).le

omit [Zero α] in
/-- The frames copied leave the pipeline at its head. -/
theorem Fidelity.pipeline_copy {s t : State cfg} (hs : Ownership s) (hf : Fidelity s) {w : WriteCall α}
    {buff : Pointer} {n : ℕ} (hpc : s.io = .copying w) (hcur : s.currentBuffer = some buff)
    (hn : n = willWrite cfg (s.heap buff) w.count)
    (hheap : t.heap = Function.update s.heap buff { s.heap buff with used := (s.heap buff).used+n })
    (hdelivered : delivered t = framesReturned s ++
      (w.copy cfg (s.heap buff)).destination.take (w.offset+cfg.destinationChannels*n))
    (hflight : inFlight t = inFlight s) :
    delivered t ++ (inFlight t).flatMap (rest t) = delivered s ++ (inFlight s).flatMap (rest s) := by
  have hhands : s.io.hands s.currentBuffer = [buff] := by simp [hpc,hcur]
  obtain ⟨_,_,_,hprep,hworker⟩ := hs.io_exclusive hhands
  have hinFlight : inFlight s = buff :: (s.preparedBuffers ++ s.worker.mixedHands) := by
    rw [inFlight,hhands,List.append_assoc,List.singleton_append]
  have htail : (s.preparedBuffers ++ s.worker.mixedHands).flatMap (rest t) =
      (s.preparedBuffers ++ s.worker.mixedHands).flatMap (rest s) := by
    refine rest_congr fun p hp => ?_
    have hne : p ≠ buff := by
      rintro rfl
      rcases List.mem_append.mp hp with hp | hp
      · exact hprep hp
      · cases hw : s.worker <;> simp_all
    rw [hheap,Function.update_of_ne hne]
  have hhead : rest t buff = (s.heap buff).data.drop (cfg.destinationChannels*((s.heap buff).used+n)) := by
    simp [rest,hheap]
  rw [hflight,hinFlight,List.flatMap_cons,List.flatMap_cons,htail,hhead,hdelivered,delivered,hpc,IoPc.copied,
    List.append_assoc,List.append_assoc]
  congr 1
  rw [← List.append_assoc,← List.append_assoc,(hf.copy hs hpc hcur hn).2]

/-- Frames produced are at the end of the pipeline, frames copied leave it at its
head, and the other steps keep it as it is. -/
theorem Move.pipeline {s t : State cfg} {a : Action α} (h : Move s a t) (hs : Ownership s) (hf : Fidelity s)
    (hdrain : t.owner.draining = false) :
    t.produced.flatten = delivered t ++ (inFlight t).flatMap (rest t) := by
  have hbefore : s.owner.draining = false := h.not_draining hdrain
  have hold := hf.pipeline hbefore
  clear hbefore
  have hkeep (hio : a ≠ .io) (p : Pointer) (hp : p ∈ inFlight s) : t.heap p = s.heap p :=
    h.heap_inFlight hs hp fun _ ha => absurd ha hio
  have hafter (hp : t.produced = s.produced) (hd : delivered t = delivered s) (hi : inFlight t = inFlight s)
      (hheap : ∀ p ∈ inFlight s, t.heap p = s.heap p) :
      t.produced.flatten = delivered t ++ (inFlight t).flatMap (rest t) := by
    rw [hp,hd,hi,rest_congr hheap,hold]
  cases h with
  | spin => exact hold
  | wait hpc hsem => exact hafter rfl rfl (by simp [inFlight,hpc]) (hkeep (by simp))
  | pop hpc hq => exact hafter rfl rfl (by simp [inFlight,hpc]) (hkeep (by simp))
  | stop hpc htype => exact hafter rfl rfl (by simp [inFlight,hpc]) (hkeep (by simp))
  | take hpc htype => exact hafter rfl rfl (by simp [inFlight,hpc]) (hkeep (by simp))
  | reset hpc => exact hafter rfl rfl (by simp [inFlight,hpc,State.setHeap]) (hkeep (by simp))
  | @mix cmd hpc =>
    obtain ⟨j,hj,rfl,_⟩ := hs.worker_exclusive (Or.inr (Or.inl hpc))
    have hall := (hf.splice_size hj (cfg.converter.length_write s.converter _)).1
    have hused := hf.reset _ (Or.inl hpc)
    have hmoved := rest_congr (hkeep (by simp))
    simp only [inFlight,hpc,WorkerPc.mixedHands,List.append_nil] at hmoved hold
    rw [List.flatten_append,hold,← hmoved,List.append_assoc]
    simp [-IoPc.hands,inFlight,delivered,framesReturned,State.setHeap,rest,hall,hused]
  | push hpc hroom => exact hafter rfl rfl (by simp [inFlight,hpc]) (hkeep (by simp))
  | count hpc => exact hafter (by simp) (by simp [delivered,framesReturned]) (by simp [inFlight,hpc]) (hkeep (by simp))
  | acquireNone hpc hcur hq =>
    exact hafter rfl (by simp [delivered,framesReturned,hpc]) (by simp [inFlight,hpc,hcur,hq]) fun _ _ => rfl
  | acquireSome hpc hcur hq =>
    exact hafter rfl (by simp [delivered,framesReturned,hpc]) (by simp [inFlight,hpc,hcur,hq]) fun _ _ => rfl
  | acquireHeld hpc hcur =>
    exact hafter rfl (by simp [delivered,framesReturned,hpc]) (by simp [inFlight,hpc,hcur]) fun _ _ => rfl
  | copyNone hpc hcur =>
    exact hafter rfl (by simp [delivered,framesReturned,hpc]) (by simp [inFlight,hpc]) fun _ _ => rfl
  | copyAll hpc hcur hused =>
    rw [hf.pipeline_copy hs hpc hcur rfl rfl rfl (by simp [inFlight,hpc,State.setHeap])]
    exact hold
  | copyPart hpc hcur hused =>
    rw [hf.pipeline_copy hs hpc hcur rfl rfl rfl (by simp [inFlight,hpc,State.setHeap])]
    exact hold
  | release hpc hroom =>
    have hempty := hf.rest_emptied hs hpc
    have hcur := hs.releasing _ _ _ hpc
    rw [hold]
    change _ = _ ++ ([] ++ s.preparedBuffers ++ s.worker.mixedHands).flatMap (rest s)
    simp [delivered,framesReturned,inFlight,hpc,hcur,hempty]
  | signal hpc => exact hafter rfl (by simp [delivered,framesReturned,hpc]) (by simp [inFlight,hpc]) fun _ _ => rfl
  | clear hpc => exact hafter rfl (by simp [delivered,framesReturned,hpc]) (by simp [inFlight,hpc]) fun _ _ => rfl
  | again hpc hn =>
    exact hafter rfl (by simp [delivered,framesReturned,hpc,WriteCall.advance]) (by simp [inFlight,hpc]) fun _ _ => rfl
  | finish hpc =>
    obtain ⟨_,hoff,_⟩ := hf.call _ 0 (by rw [hpc]; rfl)
    exact hafter rfl (by simp [delivered,framesReturned,hpc,hoff]) (by simp [inFlight,hpc]) fun _ _ => rfl
  | start hpc =>
    have hworker := hs.unstarted.mp (by rw [hpc]; rfl)
    exact hafter rfl rfl (by simp [inFlight,hworker]) (hkeep (by simp))
  | beginWrite hpc howner hroom =>
    exact hafter rfl (by simp [delivered,framesReturned,hpc]) (by simp [inFlight,hpc]) (hkeep (by simp))
  | drainReturned hpc hq => simp [dispose,hpc] at hdrain
  | drainPrepared hpc hq => simp [dispose,hpc] at hdrain
  | _ => exact hafter rfl rfl rfl (hkeep (by simp))

theorem Fidelity.step {s t : State cfg} {a : Action α} (hs : Ownership s) (hf : Fidelity s)
    (h : step s a = some t) : Fidelity t := by
  have hmove := step_move h
  exact {
    size := hmove.size hs hf
    fresh := hmove.fresh hs hf
    reset := fun _ => hmove.reset_used hs hf
    used := fun _ => hmove.used hs hf
    emptied := fun _ _ _ => hmove.emptied hs hf
    converter := (hmove.produced hf).1
    produced := (hmove.produced hf).2
    call := fun _ _ => hmove.call hs hf
    returns := hmove.returns hf
    pipeline := hmove.pipeline hs hf }

theorem Reachable.fidelity {s : State cfg} (h : Reachable s) : Fidelity s := by
  have hboth := Reaches.invariant (I := fun s => Ownership s ∧ Fidelity s) h
    ⟨initial_ownership,initial_fidelity⟩ fun _ _ _ _ ⟨hs,hf⟩ hstep => ⟨hs.step hstep,hf.step hs hstep⟩
  exact hboth.2

omit [Zero α] in
theorem length_flatMap_written (channels : ℕ) {l : List (WriteReturn α)}
    (hl : ∀ r ∈ l, channels*r.written ≤ r.destination.length) :
    (l.flatMap fun r => r.destination.take (channels*r.written)).length = channels*(l.map WriteReturn.written).sum := by
  induction l with
  | nil => rfl
  | cons r l ih =>
    have hrest := ih fun q hq => hl q (List.mem_cons_of_mem _ hq)
    simp [Nat.mul_add,hrest,hl r]

omit [Zero α] in
theorem Fidelity.length_framesReturned {s : State cfg} (hf : Fidelity s) :
    (framesReturned s).length = cfg.destinationChannels*(s.returns.map WriteReturn.written).sum :=
  length_flatMap_written _ hf.returns

/-- What has been produced is a prefix of the stream. -/
theorem Fidelity.flatten_produced {s : State cfg} (hf : Fidelity s) (hsize : 0 < cfg.bufferSize) :
    s.produced.flatten = (stream cfg).take (s.produced.length*cfg.bufferSize) := by
  have htake := BlockStream.take_concat (block cfg) hsize length_block s.produced.length
  rw [stream,htake,List.flatMap_def]
  exact congrArg List.flatten hf.produced

/-- The frames that the calls of `write` have copied out, one call after the other
and each cut to its result, are a prefix of the converter's stream, for every
schedule; so they are with the frames of a call that is still running. -/
theorem frames_delivered {s : State cfg} (h : Reachable s) (hdrain : s.owner.draining = false)
    (hframes : 1 ≤ cfg.destinationFrames) (hchannels : 1 ≤ cfg.destinationChannels) :
    s.produced = (List.range s.produced.length).map (block cfg) ∧
    framesReturned s = (stream cfg).take (cfg.destinationChannels*(s.returns.map WriteReturn.written).sum) ∧
    delivered s = (stream cfg).take (delivered s).length := by
  have hf := h.fidelity
  have hsize : 0 < cfg.bufferSize := Nat.mul_pos hchannels hframes
  have hprefix : delivered s <+: (stream cfg).take (s.produced.length*cfg.bufferSize) :=
    ⟨_,((hf.flatten_produced hsize).symm.trans (hf.pipeline hdrain)).symm⟩
  have hreturned : framesReturned s <+: delivered s := List.prefix_append _ _
  refine ⟨hf.produced,?_,BlockStream.eq_take_of_prefix hprefix⟩
  rw [← hf.length_framesReturned]
  exact BlockStream.eq_take_of_prefix (hreturned.trans hprefix)

/-- One of the two frames of a buffer is asked for and the other one stays in it. -/
theorem frames_delivered_partly : ∃ s : State counting, Reachable s ∧
    framesReturned s = [1] ∧ framesReturned s = (stream counting).take 1 := by
  have hrun : (run step (initial counting) (construct ++ mixOnce ++ .write 1 [0] :: List.replicate 6 .io)).isSome := rfl
  have hreach := reachable_of_run (Option.some_get hrun).symm
  exact ⟨_,hreach,rfl,(frames_delivered hreach rfl (by decide) (by decide)).2.1⟩

end OutputWorkerThread
end AudioOutput
