import AudioOutput.ConverterStreams

/-!
# One refill for each buffer

The worker asks the converter for `destination_frames` at a time. As long as this is
the converter's own block length, each buffer takes exactly one refill.
-/

namespace AudioOutput
namespace SampleFormatConverter

open Program BlockLength

variable {α : Type} {cfg : Config α}

structure Alike (s t : State cfg) : Prop where
  outputFrames : t.outputFrames = s.outputFrames
  refills : t.refills = s.refills

section Steps

variable [Zero α]

theorem State.feed_alike {s : State cfg} (r : Resampler.State cfg.speex) :
    Always (s.feed r) (fun _ => True) (Alike s) :=
  (Always.of_true _).bind fun _ _ => (Always.of_true _).bind fun _ _ =>
    (Always.of_true _).bind fun _ _ => .pure ⟨rfl,rfl⟩

variable [Mul α] (lit : ℚ → α)

theorem Resampling.round_alike (required : ℕ) {s : State cfg} {t : Resampling cfg} (h : Alike s t.converter) :
    Always (t.round lit required) (fun _ => True) fun u => Alike s u.converter := by
  unfold Resampling.round
  cases t.converter.resampler with
  | none => exact fun _ => ⟨fun _ _ => trivial,fun _ hb => by cases hb⟩
  | some r =>
    refine (Always.of_true _).bind fun w _ => ?_
    dsimp only
    split
    · exact (State.feed_alike _).bind fun u hu => .pure ⟨hu.1.trans h.1,hu.2.trans h.2⟩
    · exact .pure ⟨h.1,h.2⟩

variable [Add α]

theorem State.mix_alike {s : State cfg} (frames : ℕ) (samples : List α) :
    Always (s.mix lit frames samples) (fun _ => True) (Alike s) :=
  (Always.of_true _).bind fun _ _ => .pure ⟨rfl,rfl⟩

theorem State.refillDirect_alike (s : State cfg) : Always (s.refillDirect lit) (fun _ => True) (Alike s) := by
  unfold State.refillDirect
  split
  · exact (Always.of_true _).bind fun _ _ => .pure ⟨rfl,rfl⟩
  · exact (Always.of_true _).bind fun _ _ => (State.mix_alike lit _ _).imp fun t ht => ⟨ht.1,ht.2⟩

theorem State.refillResampled_alike (s : State cfg) : Always (s.refillResampled lit) (fun _ => True) (Alike s) := by
  refine (Always.whileLoop (fun t : Resampling cfg => Alike s t.converter) ⟨rfl,rfl⟩ fun t ht _ =>
    Resampling.round_alike lit _ ht).bind fun t ⟨ht,_⟩ => ?_
  dsimp only
  split
  · exact (Always.of_true _).bind fun _ _ => (Always.of_true _).bind fun _ _ => .pure ⟨ht.1,ht.2⟩
  · exact (State.mix_alike lit _ _).imp fun u hu => ⟨hu.1.trans ht.1,hu.2.trans ht.2⟩

theorem State.refill_counted (s : State cfg) : Always (s.refillOutputBuffer lit) (fun _ => True) fun t =>
    t.outputFrames = s.outputFrames ∧ t.consumedOutputFrames = 0 ∧ t.refills = s.refills+1 := by
  refine Always.bind (Q := Alike s) ?_ fun t ht => .pure ⟨ht.outputFrames,rfl,by rw [ht.refills]⟩
  split
  · exact s.refillDirect_alike lit
  · exact s.refillResampled_alike lit

/-- A converter whose blocks of `n` frames have all been handed out whole. -/
structure Aligned (n count : ℕ) (s : State cfg) : Prop where
  outputFrames : s.outputFrames = n
  consumed : s.consumedOutputFrames = n
  refills : s.refills = count

def Writing.InBlock (n count : ℕ) (t : Writing cfg) : Prop :=
  t.written ≤ n ∧ t.converter.outputFrames = n ∧
    (t.written = 0 ∧ t.converter.consumedOutputFrames = n ∧ t.converter.refills = count ∨
      t.converter.consumedOutputFrames = t.written ∧ t.converter.refills = count+1)

theorem Writing.InBlock.round {n count : ℕ} {t : Writing cfg} (h : t.InBlock n count) (hmore : t.written ≠ n) :
    Always (t.round lit n) (fun _ => True) (Writing.InBlock n count) := by
  obtain ⟨hle,hframes,hcase⟩ := h
  unfold Writing.round
  dsimp only
  split
  case isTrue hnone =>
    rcases hcase with ⟨hwritten,_,hrefills⟩ | ⟨hconsumed,_⟩
    · refine (t.converter.refill_counted lit).bind fun u ⟨hframes',hconsumed',hrefills'⟩ => .pure ?_
      exact ⟨hle,hframes'.trans hframes,Or.inr ⟨hconsumed'.trans hwritten.symm,by rw [hrefills',hrefills]⟩⟩
    · omega
  case isFalse hsome =>
    refine (Always.of_true _).bind fun samples _ => (Always.of_true _).bind fun buffer _ => .pure ?_
    rcases hcase with ⟨_,hconsumed,_⟩ | ⟨hconsumed,hrefills⟩
    · omega
    · exact ⟨by dsimp only; omega,hframes,Or.inr ⟨by dsimp only; omega,hrefills⟩⟩

theorem Aligned.write {n count : ℕ} (hn : 1 ≤ n) {s : State cfg} (hs : Aligned n count s) (buffer : List α) :
    Always (s.write lit n buffer) (fun _ => True) fun t => Aligned n (count+1) t.converter := by
  have hstart : Writing.InBlock n count (⟨s,buffer,0⟩ : Writing cfg) :=
    ⟨Nat.zero_le _,hs.outputFrames,Or.inl ⟨rfl,hs.consumed,hs.refills⟩⟩
  refine (Always.whileLoop (Writing.InBlock n count) hstart fun t ht hmore => ht.round lit hmore).imp ?_
  rintro t ⟨⟨_,hframes,hcase⟩,hstop⟩
  have hdone : t.written = n := not_not.mp hstop
  rcases hcase with ⟨hzero,_⟩ | ⟨hconsumed,hrefills⟩
  · omega
  · exact ⟨hframes,hconsumed.trans hdone,hrefills⟩

theorem Aligned.requests {n count : ℕ} (hn : 1 ≤ n) {s : State cfg} (hs : Aligned n count s) {rs : List (Request α)}
    (hrs : ∀ r ∈ rs, r.frames = n) :
    Always (s.requests lit rs) (fun _ => True) fun t => Aligned n (count+rs.length) t.1 := by
  induction rs generalizing s count with
  | nil => exact .pure hs
  | cons r rs ih =>
    have hr : r.frames = n := hrs r List.mem_cons_self
    unfold State.requests
    rw [hr]
    refine (hs.write lit hn r.buffer).bind fun t ht => ?_
    refine (ih ht fun q hq => hrs q (List.mem_cons_of_mem _ hq)).bind fun u hu => .pure ?_
    rw [List.length_cons,Nat.add_comm rs.length,← Nat.add_assoc]
    exact hu

omit [Add α] [Mul α] in
theorem construct_aligned : Always (construct cfg) (fun _ => True) (Aligned cfg.blockFrames.toNat 0) :=
  (Always.of_true _).bind fun _ _ => (Always.of_true _).bind fun _ _ =>
    (Always.of_true _).bind fun _ _ => .pure ⟨rfl,rfl,rfl⟩

end Steps

section Lengths

variable [Zero α] [Add α] [Mul α] (lit : ℚ → α)

def Config.exactFrames (cfg : Config α) : ℤ := cfg.inputFrames*cfg.outputSr/cfg.inputSr

def Config.workerFrames (cfg : Config α) : ℤ := BlockLength.workerFrames cfg.inputFrames cfg.inputSr cfg.outputSr

def Config.deviceFrames (cfg : Config α) : ℤ := BlockLength.deviceFrames cfg.inputFrames cfg.inputSr cfg.outputSr

/-- However many buffers the worker has mixed, there were as many refills; and mixing
ends, given arrays that can be allocated and a speex that keeps up. -/
def Config.RefilledOnce (cfg : Config α) : Prop :=
  ∀ rs : List (Request α), (∀ r ∈ rs, r.frames = cfg.workerFrames.toNat) →
    Always (session lit cfg rs) (fun _ => True) (fun t => t.1.refills = rs.length) ∧
    (cfg.NoOverflow → cfg.Ahead → (∀ r ∈ rs, r.Fits cfg) →
      Ends (session lit cfg rs) fun t => t.1.refills = rs.length)

theorem refilledOnce_of_eq (h : cfg.workerFrames = cfg.blockFrames) (hpos : 1 ≤ cfg.blockFrames) :
    cfg.RefilledOnce lit := by
  intro rs hrs
  rw [h] at hrs
  have hmixed : Always (session lit cfg rs) (fun _ => True) fun t => t.1.refills = rs.length := by
    refine construct_aligned.bind fun s hs => (hs.requests lit (by omega) hrs).imp fun t ht => ?_
    rw [ht.refills,Nat.zero_add]
  exact ⟨hmixed,fun hno hahead hfits => hmixed.ends ((session_meets lit hno hfits).2 hahead.keepsUp)⟩

/-- The converter, the worker and the device agree on the exact quotient, and each
buffer takes one refill, precisely when `inputFrames*outputSr` fits in an int. -/
theorem block_lengths_agree_iff (hframes : cfg.inputFrames < 2^31) (hinputSr : cfg.inputSr < 2^31)
    (houtputSr : cfg.outputSr < 2^31) (hquotient : 1 ≤ cfg.exactFrames) (hfits : cfg.exactFrames < 2^31) :
    ((cfg.blockFrames = cfg.exactFrames ∧ cfg.workerFrames = cfg.exactFrames ∧ cfg.deviceFrames = cfg.exactFrames) ∧
      cfg.RefilledOnce lit) ↔ cfg.inputFrames*cfg.outputSr < 2^31 := by
  have hiff := lengths_exact_iff (mod_cast cfg.inputFrames_pos) (mod_cast cfg.inputSr_pos)
    (mod_cast cfg.outputSr_pos) (mod_cast hframes) (mod_cast hinputSr) (mod_cast houtputSr) hquotient hfits
  have hcast : (cfg.inputFrames*cfg.outputSr : ℤ) < 2^31 ↔ cfg.inputFrames*cfg.outputSr < 2^31 := by
    rw [← Nat.cast_mul]
    omega
  rw [hcast] at hiff
  refine ⟨fun h => hiff.mp h.1,fun h => ?_⟩
  obtain ⟨hconverter,hworker,hdevice⟩ := hiff.mpr h
  refine ⟨⟨hconverter,hworker,hdevice⟩,refilledOnce_of_eq lit (hworker.trans hconverter.symm) ?_⟩
  exact hquotient.trans_eq hconverter.symm

theorem block_lengths_agree_counting : (((counting 48000 (by decide)).blockFrames = 4 ∧
      (counting 48000 (by decide)).workerFrames = 4 ∧ (counting 48000 (by decide)).deviceFrames = 4) ∧
    (counting 48000 (by decide)).RefilledOnce id) ↔ 2*48000 < 2^31 :=
  block_lengths_agree_iff id (by decide) (by decide) (by decide) (by decide) (by decide)

/-- A block of 16384 frames that goes from 48 kHz to 192 kHz. -/
theorem block_lengths_overflow : 1 ≤ (16384*192000/48000 : ℤ) ∧ (16384*192000/48000 : ℤ) < 2^31 ∧
    ¬ (converterFrames 16384 48000 192000 = 16384*192000/48000 ∧
      BlockLength.workerFrames 16384 48000 192000 = 16384*192000/48000 ∧
      BlockLength.deviceFrames 16384 48000 192000 = 16384*192000/48000) := by
  decide

end Lengths

end SampleFormatConverter
end AudioOutput
