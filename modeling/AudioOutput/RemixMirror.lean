import AudioOutput.RemixAudio

/-!
# Left and right

In the channel orders of the mixing matrices, swapping left and right before a remix
or after it is the same, except from eight channels to six.
-/

namespace AudioOutput
namespace Remix

open Program Cells Finset

/-- The channel on the other side. -/
def mirrorChannel (count k : ℕ) : ℕ :=
  match count with
  | 2 => [1,0].getD k k
  | 4 => [1,0,3,2].getD k k
  | 6 => [1,0,2,3,5,4].getD k k
  | 8 => [1,0,2,3,5,4,7,6].getD k k
  | _ => k

def mirror {α : Type} [Zero α] (count : ℕ) (xs : List α) : List α :=
  (List.range xs.length).map fun i => xs.getD (i/count*count+mirrorChannel count (i%count)) 0

def standardCounts : List ℕ := [1,2,4,6,8]

theorem one_le_of_standard : ∀ m ∈ standardCounts, 1 ≤ m := by decide

theorem mirrorChannel_lt : ∀ m ∈ standardCounts, ∀ k < m, mirrorChannel m k < m := by decide

theorem mirrorChannel_mirrorChannel : ∀ m ∈ standardCounts, ∀ k < m, mirrorChannel m (mirrorChannel m k) = k := by
  decide

section Layout

variable {α : Type} [Zero α]

@[simp] theorem length_mirror (count : ℕ) (xs : List α) : (mirror count xs).length = xs.length := by
  simp [mirror]

theorem getD_mirror {count frames : ℕ} {xs : List α} (hxs : xs.length = frames*count) {f k : ℕ} (hf : f < frames)
    (hk : k < count) : (mirror count xs).getD (f*count+k) 0 = xs.getD (f*count+mirrorChannel count k) 0 := by
  have hlt : f*count+k < xs.length := hxs ▸ interleaved_lt hf hk le_rfl
  have hdiv : (f*count+k)/count = f := by
    rw [Nat.add_comm,Nat.add_mul_div_right _ _ (by omega),Nat.div_eq_of_lt hk,Nat.zero_add]
  have hmod : (f*count+k)%count = k := by
    rw [Nat.add_comm,Nat.add_mul_mod_self_right,Nat.mod_eq_of_lt hk]
  simp [mirror,List.getD_eq_getElem?_getD,hlt,hdiv,hmod]

theorem eq_iff_getD {count frames : ℕ} (hcount : 1 ≤ count) {xs ys : List α} (hxs : xs.length = frames*count)
    (hys : ys.length = frames*count) :
    xs = ys ↔ ∀ f < frames, ∀ j < count, xs.getD (f*count+j) 0 = ys.getD (f*count+j) 0 := by
  constructor
  · rintro rfl f _ j _
    rfl
  · intro hall
    apply List.ext_getElem (hxs.trans hys.symm)
    intro i hi hi'
    have hf : i/count < frames := Nat.div_lt_of_lt_mul (by rwa [Nat.mul_comm,← hxs])
    have hcell := hall (i/count) hf (i%count) (Nat.mod_lt i hcount)
    rw [Nat.div_add_mod' i count] at hcell
    simpa [List.getD_eq_getElem?_getD,hi,hi'] using hcell

end Layout

/-- The matrices and the fallbacks are symmetric, with one exception. -/
theorem mixingEntry_mirror : ∀ m ∈ standardCounts, ∀ n ∈ standardCounts, (m,n) ≠ (8,6) → ∀ j < n, ∀ k < m,
    mixingEntry m n (mirrorChannel n j) (mirrorChannel m k) = mixingEntry m n j k := by
  decide +kernel

variable {K : Type} [Field K]

theorem mixedFrame_mirror {m n : ℕ} (hm : m ∈ standardCounts) (x : ℕ → K) (j : ℕ) :
    mixedFrame m n (fun k => x (mirrorChannel m k)) j =
      ∑ k ∈ range m, (mixingEntry m n j (mirrorChannel m k) : K)*x k := by
  have hlt : ∀ k ∈ range m, mirrorChannel m k ∈ range m := by
    intro k hk
    exact mem_range.mpr (mirrorChannel_lt m hm k (mem_range.mp hk))
  have hback : ∀ k ∈ range m, mirrorChannel m (mirrorChannel m k) = k := by
    intro k hk
    exact mirrorChannel_mirrorChannel m hm k (mem_range.mp hk)
  refine sum_nbij' (mirrorChannel m) (mirrorChannel m) hlt hlt hback hback fun k hk => ?_
  rw [hback k hk]

theorem mixedFrame_symm {m n : ℕ} (hm : m ∈ standardCounts) (hn : n ∈ standardCounts) (hne : (m,n) ≠ (8,6))
    (x : ℕ → K) {j : ℕ} (hj : j < n) :
    mixedFrame m n (fun k => x (mirrorChannel m k)) j = mixedFrame m n x (mirrorChannel n j) := by
  rw [mixedFrame_mirror hm]
  refine sum_congr rfl fun k hk => ?_
  have hk := mem_range.mp hk
  have hentry := mixingEntry_mirror m hm n hn hne j hj (mirrorChannel m k) (mirrorChannel_lt m hm k hk)
  rw [mirrorChannel_mirrorChannel m hm k hk] at hentry
  rw [hentry]

/-- From eight channels to six, back left is the mean of the two back channels and back
right that of the two side channels. -/
theorem mixedFrame_8_6 (x : ℕ → K) : mixedFrame 8 6 x 4 = ((1/2 : ℚ) : K)*(x 4+x 5) ∧
    mixedFrame 8 6 x 5 = ((1/2 : ℚ) : K)*(x 6+x 7) ∧ ∀ j < 4, mixedFrame 8 6 x j = x j := by
  have hfour : ∀ k < 8, mixingEntry 8 6 4 k = if k = 4 ∨ k = 5 then 1/2 else 0 := by decide +kernel
  have hfive : ∀ k < 8, mixingEntry 8 6 5 k = if k = 6 ∨ k = 7 then 1/2 else 0 := by decide +kernel
  have hfront : ∀ j < 4, ∀ k < 8, mixingEntry 8 6 j k = if j = k then 1 else 0 := by decide +kernel
  refine ⟨?_,?_,fun j hj => ?_⟩
  · simp [mixedFrame,sum_range_succ,hfour,mul_add]
  · simp [mixedFrame,sum_range_succ,hfive,mul_add]
  · have hrow : mixedFrame 8 6 x j = ∑ k ∈ range 8, ((if j = k then 1 else 0 : ℚ) : K)*x k :=
      sum_congr rfl fun k hk => by rw [hfront j hj k (mem_range.mp hk)]
    rw [hrow,sum_identity,if_pos (by omega)]

/-- The remix of one frame commutes with the mirror, except from eight channels to six;
there the two backs have to weigh as much as the two sides. -/
theorem mixedFrame_mirror_iff [CharZero K] {m n : ℕ} (hm : m ∈ standardCounts) (hn : n ∈ standardCounts) (x : ℕ → K) :
    (∀ j < n, mixedFrame m n (fun k => x (mirrorChannel m k)) j = mixedFrame m n x (mirrorChannel n j)) ↔
      ((m,n) = (8,6) → x 4+x 5 = x 6+x 7) := by
  by_cases hne : (m,n) = (8,6)
  · obtain ⟨rfl,rfl⟩ := Prod.mk.inj hne
    obtain ⟨hback,hside,hfront⟩ := mixedFrame_8_6 fun k => x (mirrorChannel 8 k)
    obtain ⟨hback',hside',hfront'⟩ := mixedFrame_8_6 x
    have hhalf : ((1/2 : ℚ) : K) ≠ 0 := by simp
    constructor
    · intro hall _
      have hfour := hall 4 (by decide)
      rw [hback,show mirrorChannel 6 4 = 5 from rfl,hside'] at hfour
      have hsum := mul_left_cancel₀ hhalf hfour
      rwa [show mirrorChannel 8 4 = 5 from rfl,show mirrorChannel 8 5 = 4 from rfl,add_comm] at hsum
    · intro hsum j hj
      have hsum := hsum rfl
      by_cases hj4 : j < 4
      · have hsame : ∀ i < 4, mirrorChannel 6 i < 4 ∧ mirrorChannel 8 i = mirrorChannel 6 i := by decide
        rw [hfront j hj4,hfront' _ (hsame j hj4).1,(hsame j hj4).2]
      · obtain rfl | rfl : j = 4 ∨ j = 5 := by omega
        · rw [hback,show mirrorChannel 6 4 = 5 from rfl,hside',← hsum,add_comm (x 4)]
          rfl
        · rw [hside,show mirrorChannel 6 5 = 4 from rfl,hback',hsum,add_comm (x 6)]
          rfl
  · simp only [hne,false_imp_iff,iff_true]
    exact fun j hj => mixedFrame_symm hm hn hne x hj

/-- Remixing the mirrored input is mirroring the remix, for all standard channel counts
but from eight to six; there it is so exactly if in every frame the two back channels
add up to what the two side channels do. `output'` may hold anything where the remix
zeroes first. -/
theorem remix_mirror_iff [CharZero K] (frames : ℕ) {m n : ℕ} (hm : m ∈ standardCounts) (hn : n ∈ standardCounts)
    {input output output' : List K} (hin : input.length = frames*m) (hout : output.length = frames*n)
    (hout' : output'.length = frames*n) (zeroFirst : Bool) (hstart : zeroFirst = false → output' = mirror n output) :
    ∃ out out', Returns (remixAudioInterleaved (fun q => (q : K)) frames m input n output zeroFirst) out ∧
      Returns (remixAudioInterleaved (fun q => (q : K)) frames m (mirror m input) n output' zeroFirst) out' ∧
      (out' = mirror n out ↔ ((m,n) = (8,6) → ∀ f < frames,
        input.getD (f*8+4) 0+input.getD (f*8+5) 0 = input.getD (f*8+6) 0+input.getD (f*8+7) 0)) := by
  have hm1 := one_le_of_standard m hm
  have hn1 := one_le_of_standard n hn
  obtain ⟨out,hreturns,hlen,hcells⟩ := remixAudioInterleaved_frames zeroFirst hm1 hin.ge hout.ge
  obtain ⟨out',hreturns',hlen',hcells'⟩ :=
    remixAudioInterleaved_frames zeroFirst hm1 ((length_mirror m input).trans hin).ge hout'.ge
  refine ⟨out,out',hreturns,hreturns',?_⟩
  have hcell (f : ℕ) (hf : f < frames) (j : ℕ) (hj : j < n) :
      out'.getD (f*n+j) 0 = (mirror n out).getD (f*n+j) 0 ↔
        mixedFrame m n (fun k => input.getD (f*m+mirrorChannel m k) 0) j =
          mixedFrame m n (fun k => input.getD (f*m+k) 0) (mirrorChannel n j) := by
    have hbegin : start zeroFirst (output'.getD (f*n+j) 0) = start zeroFirst (output.getD (f*n+mirrorChannel n j) 0) := by
      cases zeroFirst with
      | true => rfl
      | false => rw [hstart rfl,getD_mirror hout hf hj]
    rw [getD_mirror (hlen.trans hout) hf hj,hcells' f hf j hj,hcells f hf _ (mirrorChannel_lt n hn j hj),hbegin,
      mixedFrame_congr (fun k hk => getD_mirror hin hf hk) j,add_right_inj]
  calc
    out' = mirror n out ↔ ∀ f < frames, ∀ j < n, out'.getD (f*n+j) 0 = (mirror n out).getD (f*n+j) 0 :=
      eq_iff_getD hn1 (hlen'.trans hout') ((length_mirror n out).trans (hlen.trans hout))
    _ ↔ ∀ f < frames, (m,n) = (8,6) → input.getD (f*m+4) 0+input.getD (f*m+5) 0 =
        input.getD (f*m+6) 0+input.getD (f*m+7) 0 := by
      refine forall₂_congr fun f hf => ?_
      rw [← mixedFrame_mirror_iff hm hn fun k => input.getD (f*m+k) 0]
      exact forall₂_congr (hcell f hf)
    _ ↔ _ := by
      constructor
      · rintro hall hmn f hf
        obtain ⟨rfl,rfl⟩ := Prod.mk.inj hmn
        exact hall f hf rfl
      · rintro hall f hf hmn
        obtain ⟨rfl,rfl⟩ := Prod.mk.inj hmn
        exact hall rfl f hf

/-- Stereo to 5.1. -/
theorem remix_mirror_stereo : ∃ out out', Returns (remixAudioInterleaved (fun q => ((q : ℚ) : ℚ)) 1 2 [1,2] 6
      [0,0,0,0,0,0] true) out ∧
    Returns (remixAudioInterleaved (fun q => ((q : ℚ) : ℚ)) 1 2 (mirror 2 [1,2]) 6 [0,0,0,0,0,0] true) out' ∧
    out' = mirror 6 out := by
  have hin : ([1,2] : List ℚ).length = 1*2 := rfl
  have hout : ([0,0,0,0,0,0] : List ℚ).length = 1*6 := rfl
  obtain ⟨out,out',hreturns,hreturns',hiff⟩ := remix_mirror_iff 1 (by decide) (by decide) hin hout hout true (by simp)
  exact ⟨out,out',hreturns,hreturns',hiff.mpr (by simp)⟩

/-- What is heard in back left alone is in back left before the swap and after it. -/
theorem back_left_stays : ¬ ∀ (frames m n : ℕ), m ∈ standardCounts → n ∈ standardCounts → ∀ input output : List ℚ,
    input.length = frames*m → output.length = frames*n → ∀ out out',
    Returns (remixAudioInterleaved (fun q => ((q : ℚ) : ℚ)) frames m input n output true) out →
    Returns (remixAudioInterleaved (fun q => ((q : ℚ) : ℚ)) frames m (mirror m input) n output true) out' →
    out' = mirror n out := by
  intro hall
  have hleft : Returns (remixAudioInterleaved (fun q => ((q : ℚ) : ℚ)) 1 8 [0,0,0,0,1,0,0,0] 6 [0,0,0,0,0,0] true)
      [0,0,0,0,1/2,0] := .of_run 10 (by decide +kernel)
  have hright : Returns (remixAudioInterleaved (fun q => ((q : ℚ) : ℚ)) 1 8 (mirror 8 [0,0,0,0,1,0,0,0]) 6
      [0,0,0,0,0,0] true) [0,0,0,0,1/2,0] := .of_run 10 (by decide +kernel)
  have hmirror := hall 1 8 6 (by decide) (by decide) [0,0,0,0,1,0,0,0] [0,0,0,0,0,0] rfl rfl _ _ hleft hright
  revert hmirror
  decide +kernel

end Remix
end AudioOutput
