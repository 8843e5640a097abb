import AudioOutput.Resampler
import Mathlib.Algebra.Order.Floor.Div

/-!
# How speex counts

Output `k` is computed at input position `⌊k·numer/denom⌋`. The counters of
`speex_resampler.c` keep the position of the next output relative to the input
consumed; what they give in one call is all that the loops around speex depend on.
-/

namespace AudioOutput
namespace Resampler

/-- The input frame at which output `k` is computed. -/
def position (numer denom k : ℕ) : ℕ := k*numer/denom

/-- The number of outputs that are computed before input frame `p`. -/
def outputsBefore (numer denom p : ℕ) : ℕ := (p*denom) ⌈/⌉ numer

theorem position_lt_iff {numer denom : ℕ} (hnumer : 0 < numer) (hdenom : 0 < denom) (k p : ℕ) :
    position numer denom k < p ↔ k < outputsBefore numer denom p := by
  rw [position,outputsBefore,Nat.div_lt_iff_lt_mul hdenom,← not_le,← not_le,ceilDiv_le_iff_le_mul hnumer,Nat.mul_comm k]

theorem le_position_iff {numer denom : ℕ} (hnumer : 0 < numer) (hdenom : 0 < denom) (k p : ℕ) :
    p ≤ position numer denom k ↔ outputsBefore numer denom p ≤ k := by
  rw [← not_lt,position_lt_iff hnumer hdenom,not_lt]

theorem outputsBefore_mono {numer denom : ℕ} (hnumer : 0 < numer) {p q : ℕ} (h : p ≤ q) :
    outputsBefore numer denom p ≤ outputsBefore numer denom q :=
  (gc_mul_ceilDiv hnumer).monotone_l (Nat.mul_le_mul_right _ h)

variable {α : Type} {channels : ℕ}

/-- What the counters of speex say: `At s c k` after `c` frames of input have been
consumed and `k` frames of output produced. An output is produced only when its
position is among the frames offered, and no call consumes beyond the position of the
next output. -/
structure Counts (speex : Speex α channels) (numer denom : ℕ) (At : speex.State → ℕ → ℕ → Prop) : Prop where
  start : At speex.initial 0 0
  next : ∀ {s c k}, At s c k → ∀ (input : List α) (n room : ℕ), input.length = n*channels →
    At (speex.process s input n room).state (c+(speex.process s input n room).consumed)
      (k+(speex.process s input n room).produced)
  available : ∀ {s c k}, At s c k → ∀ (input : List α) (n room : ℕ), input.length = n*channels →
    ∀ i < (speex.process s input n room).produced, position numer denom (k+i) < c+n
  reserved : ∀ {s c k}, At s c k → c ≤ position numer denom k

namespace Counts

variable {speex : Speex α channels} {numer denom : ℕ} {At : speex.State → ℕ → ℕ → Prop}
  (h : Counts speex numer denom At)
include h

theorem produced_eq (hnumer : 0 < numer) (hdenom : 0 < denom) {s : speex.State} {c k : ℕ} (hs : At s c k) {input : List α}
    {n room : ℕ} (hlen : input.length = n*channels) :
    (speex.process s input n room).produced = min room (outputsBefore numer denom (c+n)-k) := by
  have hroom := speex.produced_le s input n room hlen
  have havailable : k+(speex.process s input n room).produced ≤ max k (outputsBefore numer denom (c+n)) := by
    cases hlast : (speex.process s input n room).produced with
    | zero => exact le_max_left _ _
    | succ m =>
      have hposition := h.available hs input n room hlen m (by omega)
      rw [position_lt_iff hnumer hdenom] at hposition
      omega
  have hreserved := h.reserved (h.next hs input n room hlen)
  rw [le_position_iff hnumer hdenom] at hreserved
  rcases speex.limit s input n room hlen with hall | hfull
  · rw [hall] at hreserved
    omega
  · omega

end Counts

end Resampler
end AudioOutput
