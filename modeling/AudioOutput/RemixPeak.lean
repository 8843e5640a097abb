import AudioOutput.RemixAudio

/-!
# The peak of a remix

No entry of a matrix is negative, so a row amplifies a full-scale frame by its sum
and no frame by more. Six of the matrices have a row whose sum is above one.
-/

namespace AudioOutput
namespace Remix

open Program Finset

def rowSum (m n j : ℕ) : ℚ := ∑ k ∈ range m, mixingEntry m n j k

/-- The pairs of channel counts that are mixed down with a row above one. -/
def amplifying : List (ℕ × ℕ) := [(6,1),(6,2),(6,4),(8,1),(8,2),(8,4)]

theorem registered_nonneg : ∀ e ∈ mixingMatrixList, ∀ q ∈ e.pointer.getD [], 0 ≤ q := by decide +kernel

theorem mixingEntry_nonneg (m n j k : ℕ) : 0 ≤ mixingEntry m n j k := by
  unfold mixingEntry
  cases h : registered m n with
  | some M =>
    obtain ⟨e,he,-,-,hM⟩ := registered_mem h
    have hall := registered_nonneg e he
    rw [hM,Option.getD_some] at hall
    change 0 ≤ M.getD (j*m+k) 0
    rw [List.getD_eq_getElem?_getD]
    cases hq : M[j*m+k]? with
    | none => exact le_rfl
    | some q => exact hall q (List.mem_of_getElem? hq)
  | none =>
    dsimp only
    split_ifs <;> norm_num

/-- The registered pairs that are not among the six have no row above one. -/
theorem registered_rowSum : ∀ e ∈ mixingMatrixList, (e.inChannels,e.outChannels) ∉ amplifying →
    ∀ j < e.outChannels, rowSum e.inChannels e.outChannels j ≤ 1 := by
  decide +kernel

theorem one_lt_rowSum : ∀ p ∈ amplifying, 1 < rowSum p.1 p.2 0 := by decide +kernel

theorem rowSum_le_one {m n : ℕ} (h : (m,n) ∉ amplifying) {j : ℕ} (hj : j < n) : rowSum m n j ≤ 1 := by
  cases hM : registered m n with
  | some M =>
    obtain ⟨e,he,rfl,rfl,-⟩ := registered_mem hM
    exact registered_rowSum e he h j hj
  | none =>
    unfold rowSum mixingEntry
    rw [hM]
    by_cases hm : m = 1
    · subst hm
      simp
    · have hone : ∑ k ∈ range m, (if j = k then 1 else 0 : ℚ) = if j < m then 1 else 0 := by simp
      simp only [hm,if_false]
      rw [hone]
      split_ifs <;> norm_num

variable {K : Type} [Field K] [LinearOrder K] [IsStrictOrderedRing K]

theorem abs_mixedFrame_le {m : ℕ} (n : ℕ) {x : ℕ → K} (hx : ∀ k < m, |x k| ≤ 1) (j : ℕ) :
    |mixedFrame m n x j| ≤ (rowSum m n j : K) := by
  have hentry (k : ℕ) : (0 : K) ≤ mixingEntry m n j k := Rat.cast_nonneg.mpr (mixingEntry_nonneg m n j k)
  calc
    |mixedFrame m n x j| ≤ ∑ k ∈ range m, |(mixingEntry m n j k : K)*x k| := abs_sum_le_sum_abs _ _
    _ ≤ ∑ k ∈ range m, (mixingEntry m n j k : K) := by
      refine sum_le_sum fun k hk => ?_
      rw [abs_mul,abs_of_nonneg (hentry k)]
      exact mul_le_of_le_one_right (hentry k) (hx k (mem_range.mp hk))
    _ = (rowSum m n j : K) := by rw [rowSum,Rat.cast_sum]

theorem mixedFrame_one (m n j : ℕ) : mixedFrame m n (fun _ => (1 : K)) j = (rowSum m n j : K) := by
  simp [mixedFrame,rowSum]

def InRange (xs : List K) : Prop := ∀ x ∈ xs, |x| ≤ 1

theorem InRange.getD {xs : List K} (h : InRange xs) (i : ℕ) : |xs.getD i 0| ≤ 1 := by
  rw [List.getD_eq_getElem?_getD]
  cases hx : xs[i]? with
  | none => simp
  | some x => exact h x (List.mem_of_getElem? hx)

theorem inRange_replicate (n : ℕ) : InRange (List.replicate n (1 : K)) := by
  intro x hx
  simp [List.eq_of_mem_replicate hx]

theorem remix_abs_le {frames m n : ℕ} (hm : 1 ≤ m) {input output : List K} (hin : input.length = frames*m)
    (hout : output.length = frames*n) (hrange : InRange input) :
    Ends (remixAudioInterleaved (fun q => (q : K)) frames m input n output true) fun out =>
      out.length = frames*n ∧ ∀ f < frames, ∀ j < n, |out.getD (f*n+j) 0| ≤ (rowSum m n j : K) := by
  refine (remixAudioInterleaved_frames true hm hin.ge hout.ge).imp ?_
  rintro out ⟨hlen,hcells⟩
  refine ⟨hlen.trans hout,fun f hf j hj => ?_⟩
  rw [hcells f hf j hj,start,if_pos rfl,zero_add]
  exact abs_mixedFrame_le n (fun k _ => hrange.getD (f*m+k)) j

/-- A frame at full scale comes out as the sums of the rows. -/
theorem remix_fullScale {frames m n : ℕ} (hm : 1 ≤ m) {output : List K} (hout : output.length = frames*n) :
    Ends (remixAudioInterleaved (fun q => (q : K)) frames m (List.replicate (frames*m) 1) n output true) fun out =>
      ∀ f < frames, ∀ j < n, out.getD (f*n+j) 0 = (rowSum m n j : K) := by
  refine (remixAudioInterleaved_frames true hm (by simp) hout.ge).imp ?_
  rintro out ⟨-,hcells⟩ f hf j hj
  have hone : ∀ k < m, (List.replicate (frames*m) (1 : K)).getD (f*m+k) 0 = 1 := by
    intro k hk
    have hlt := interleaved_lt hf hk le_rfl
    simp [List.getD_eq_getElem?_getD,hlt]
  rw [hcells f hf j hj,start,if_pos rfl,zero_add,mixedFrame_congr hone,mixedFrame_one]

/-- With the output zeroed first, a remix of samples in [-1,1] stays in [-1,1] for every
input exactly if there are no frames or the channel counts are not among the six. -/
theorem remix_inRange_iff (frames : ℕ) {m n : ℕ} (hm : 1 ≤ m) (hn : 1 ≤ n) :
    (∀ input output : List K, input.length = frames*m → output.length = frames*n → InRange input →
      Ends (remixAudioInterleaved (fun q => (q : K)) frames m input n output true) InRange) ↔
      frames = 0 ∨ (m,n) ∉ amplifying := by
  constructor
  · intro hall
    by_contra hneg
    push Not at hneg
    obtain ⟨hframes,hmem⟩ := hneg
    have hrow := one_lt_rowSum (m,n) hmem
    have hout : (List.replicate (frames*n) (0 : K)).length = frames*n := List.length_replicate
    obtain ⟨out,hreturns,hsums⟩ := remix_fullScale hm hout
    obtain ⟨out',hreturns',hrange⟩ := hall _ _ List.length_replicate hout (inRange_replicate (frames*m))
    obtain rfl := hreturns.unique hreturns'
    have hfirst := hrange.getD (0*n+0)
    rw [hsums 0 (Nat.pos_of_ne_zero hframes) 0 hn] at hfirst
    have hbelow : ((rowSum m n 0 : ℚ) : K) ≤ ((1 : ℚ) : K) := by simpa using (le_abs_self _).trans hfirst
    exact absurd (Rat.cast_le.mp hbelow) (not_le.mpr hrow)
  · intro hcase input output hin hout hrange
    refine (remix_abs_le hm hin hout hrange).imp ?_
    rintro out ⟨hlen,hbound⟩ x hx
    obtain ⟨i,hi,rfl⟩ := List.getElem_of_mem hx
    have hf : i/n < frames := Nat.div_lt_of_lt_mul (by rwa [Nat.mul_comm,← hlen])
    have hj : i%n < n := Nat.mod_lt i hn
    have hmem : (m,n) ∉ amplifying := hcase.resolve_left (Nat.zero_lt_of_lt hf).ne'
    have hsample := hbound (i/n) hf (i%n) hj
    rw [Nat.div_add_mod' i n,List.getD_eq_getElem?_getD,List.getElem?_eq_getElem hi,Option.getD_some] at hsample
    have hone : ((rowSum m n (i%n) : ℚ) : K) ≤ ((1 : ℚ) : K) := Rat.cast_le.mpr (rowSum_le_one hmem hj)
    exact hsample.trans (by simpa using hone)

/-- Quadraphonic sound to stereo. -/
theorem remix_inRange_downmix : Ends (remixAudioInterleaved (fun q => ((q : ℚ) : ℚ)) 1 4 [1,-1,1,-1] 2 [0,0] true)
    InRange := by
  refine (remix_inRange_iff 1 (by decide) (by decide)).mpr (Or.inr (by decide)) [1,-1,1,-1] [0,0] rfl rfl ?_
  simp [InRange]

/-- 5.1 at full scale to mono. -/
theorem downmix_clips : ¬ ∀ (frames m n : ℕ), 1 ≤ m → 1 ≤ n → ∀ input output out : List ℚ,
    input.length = frames*m → output.length = frames*n → InRange input →
    Returns (remixAudioInterleaved (fun q => ((q : ℚ) : ℚ)) frames m input n output true) out → InRange out := by
  intro hall
  have hreturns : Returns (remixAudioInterleaved (fun q => ((q : ℚ) : ℚ)) 1 6 [1,1,1,1,1,1] 1 [0] true) [3.414] :=
    .of_run 10 (by decide +kernel)
  have hrange := hall 1 6 1 (by decide) (by decide) [1,1,1,1,1,1] [0] [3.414] rfl rfl (inRange_replicate 6) hreturns
  norm_num [InRange] at hrange

end Remix
end AudioOutput
