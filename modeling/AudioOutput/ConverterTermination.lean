import AudioOutput.ConverterStreams
import AudioOutput.SpeexResampler

/-!
# Requests that end

Four loops are one inside the other: `write` of the converter, a refill, `write` of the
resampler, and speex. Each round of one of them may leave the others where they were,
but input that has been pulled must come out, up to the output frame just begun.
-/

namespace AudioOutput

open Program

namespace Resampler

variable {α : Type} {channels : ℕ} {speex : Speex α channels} {numer denom : ℕ} {At : speex.State → ℕ → ℕ → Prop}

theorem Counts.reached (h : Counts speex numer denom At) {input : Stream' α} {s : speex.State} {m : ℕ} {ys : List α}
    (hreached : speex.Reached input s m ys) :
    ∃ c k, m = c*channels ∧ ys.length = k*channels ∧ At s c k := by
  induction hreached with
  | initial => exact ⟨0,0,by simp,by simp,h.start⟩
  | @process s m ys _ n room r hr ih =>
    obtain ⟨c,k,hm,hys,hat⟩ := ih
    have hlen : ((input.drop m).take (n*channels)).length = n*channels := Stream'.length_take _ _
    refine ⟨c+r.consumed,k+r.produced,?_,?_,?_⟩
    · rw [hm,Nat.add_mul]
    · rw [List.length_append,hys,hr,speex.length_samples _ _ _ _ hlen,Nat.add_mul]
    · rw [hr]
      exact h.next hat _ n room hlen

end Resampler

namespace SampleFormatConverter

variable {α : Type} {cfg : Config α}

/-- A speex that counts is one that keeps up. -/
theorem keepsUp_of_counts {numer denom : ℕ} {At : cfg.speex.State → ℕ → ℕ → Prop}
    (h : Resampler.Counts cfg.speex numer denom At) (hnumer : 0 < numer) (hdenom : 0 < denom)
    (hratio : numer*cfg.outputSr = denom*cfg.inputSr) : cfg.KeepsUp := by
  intro _ input s n ys hreached
  obtain ⟨c,k,hn,hys,hat⟩ := h.reached hreached
  have hnc : n = c := Nat.eq_of_mul_eq_mul_right cfg.inputChannels_pos hn
  have hposition : n*denom ≤ k*numer := (Nat.le_div_iff_mul_le hdenom).mp (hnc ▸ h.reserved hat)
  have hneed : n*cfg.outputSr ≤ k*cfg.inputSr := by
    refine Nat.le_of_mul_le_mul_left ?_ hnumer
    calc numer*(n*cfg.outputSr) = n*denom*cfg.inputSr := by rw [Nat.mul_left_comm,hratio,Nat.mul_assoc]
      _ ≤ k*numer*cfg.inputSr := Nat.mul_le_mul_right _ hposition
      _ = numer*(k*cfg.inputSr) := by ring
  rw [hys]
  exact Nat.mul_le_mul_right _ (Nat.div_le_of_le_mul (hneed.trans_eq (Nat.mul_comm _ _)))

section Ends

variable [Zero α] [Add α] [Mul α] (lit : ℚ → α)

def WritesEnd (cfg : Config α) (r : Resampler.State cfg.speex) : Prop :=
  ∀ (dest : List α) (pos maxFrameCount : ℕ), pos+maxFrameCount*cfg.inputChannels ≤ dest.length →
    Ends (r.write cfg.inputFrames lit dest pos maxFrameCount) fun w => w.count ≤ maxFrameCount

omit [Zero α] [Add α] in
theorem Fed.writesEnd {pulled : ℕ} {r : Resampler.State cfg.speex} (h : Fed cfg pulled r) : WritesEnd lit cfg r :=
  fun _ _ _ hroom => (Resampler.write_ends lit h.valid cfg.inputChannels_pos hroom).imp fun _ hw => hw.2.2.2.2.1

def Event.WritesEnd : Event cfg → Prop
  | .callback _ => True
  | .read r => SampleFormatConverter.WritesEnd lit cfg r

omit [Zero α] [Add α] in
theorem Event.Sound.writesEnd : ∀ {e : Event cfg}, e.Sound → e.WritesEnd lit
  | .callback _, _ => trivial
  | .read _, ⟨_,hfed⟩ => hfed.writesEnd lit

/-- Whatever was requested before, a request ends with all its frames written; so does
every refill, and every call of the resampler in it, however few frames a block becomes. -/
theorem write_terminates (h : cfg.NoOverflow) (hspeex : cfg.KeepsUp) {rs : List (Request α)} (hrs : ∀ r ∈ rs, r.Fits cfg) :
    Always (session lit cfg rs) (Event.WritesEnd lit) (fun _ => True) ∧
    Ends (session lit cfg rs) fun t => 0 < t.1.outputFrames ∧
      (∀ frames (buffer : List α), frames*cfg.outputChannels ≤ buffer.length →
        Always (t.1.write lit frames buffer) (Event.WritesEnd lit) (fun _ => True) ∧
        Ends (t.1.write lit frames buffer) fun u => u.written = frames) ∧
      (t.1.consumedOutputFrames = t.1.outputFrames →
        Ends (t.1.refillOutputBuffer lit) fun u => u.consumedOutputFrames = 0) ∧
      (cfg.inputSr ≠ cfg.outputSr → ∃ r, t.1.resampler = some r ∧ WritesEnd lit cfg r) := by
  have hmeets := session_meets lit h hrs
  refine ⟨(hmeets.1.imp_event fun e => Event.Sound.writesEnd lit).imp fun _ _ => trivial,(hmeets.2 hspeex).imp ?_⟩
  rintro ⟨s,out⟩ ⟨hs,_,_⟩
  refine ⟨hs.valid.outputFrames,fun frames buffer hroom => ?_,fun hused => ?_,fun hne => ?_⟩
  · have hwrite := hs.write hroom
    refine ⟨(hwrite.1.imp_event fun e => Event.Sound.writesEnd lit).imp fun _ _ => trivial,?_⟩
    exact (hwrite.2 hspeex).imp fun u hu => hu.2.1
  · exact ((hs.valid.refill hused).2 hspeex).imp fun u hu => hu.2.1
  · obtain ⟨r,hr,hfed⟩ := hs.valid.fed hne
    exact ⟨r,hr,hfed.writesEnd lit⟩

def trickle : Config ℚ where
  inputFrames := 2
  inputChannels := 1
  inputSr := 5
  outputChannels := 1
  outputSr := 1
  callback k := [k,k]
  speex := SpeexResampler.speex (SpeexResampler.nearest 5 1 (by decide) Nat.one_pos)
  inputFrames_pos := Nat.two_pos
  inputChannels_pos := Nat.one_pos
  inputSr_pos := by decide
  outputChannels_pos := Nat.one_pos
  outputSr_pos := Nat.one_pos
  length_callback _ := rfl

theorem write_terminates_trickle : Ends (session id trickle [⟨3,[0,0,0]⟩]) fun t => 0 < t.1.outputFrames := by
  have hno : trickle.NoOverflow := ⟨by decide,by decide,by decide,by decide⟩
  have hkeeps : trickle.KeepsUp := keepsUp_of_counts SpeexResampler.speex_counts (by decide) (by decide) rfl
  have hfits : ∀ r ∈ ([⟨3,[0,0,0]⟩] : List (Request ℚ)), r.Fits trickle := by simp [Request.Fits,trickle]
  exact (write_terminates id hno hkeeps hfits).2.imp fun t ht => ht.1

end Ends

end SampleFormatConverter
end AudioOutput
