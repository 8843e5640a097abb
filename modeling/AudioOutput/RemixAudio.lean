import AudioOutput.RemixChannels
import Mathlib.Algebra.BigOperators.Ring.Finset
import Mathlib.Algebra.Field.Rat

/-!
# Remixing

The two functions select the same kernel, so they are the same function on two
layouts; and the kernel is the registered matrix or one of the fallbacks.
-/

namespace AudioOutput
namespace Remix

open Program Cells

variable {α : Type}

/-- The registered array where there is one. -/
theorem kernel_eq (m n : ℕ) : kernel m n =
    match registered m n with
    | some M => .matrix M
    | none => if m = 1 then .mono else .unrecognized := by
  by_cases h₁ : m = 1
  · subst h₁
    simp only [kernel,registered,registered.go,mixingMatrixList]
    simp
    split_ifs <;> rfl
  by_cases h₂ : m = 2
  · subst h₂
    simp [kernel,registered,registered.go,mixingMatrixList]
    split_ifs <;> rfl
  by_cases h₄ : m = 4
  · subst h₄
    simp [kernel,registered,registered.go,mixingMatrixList]
    split_ifs <;> rfl
  by_cases h₆ : m = 6
  · subst h₆
    simp [kernel,registered,registered.go,mixingMatrixList]
    split_ifs <;> rfl
  by_cases h₈ : m = 8
  · subst h₈
    simp [kernel,registered,registered.go,mixingMatrixList]
    split_ifs <;> rfl
  · simp [kernel,registered,registered.go,mixingMatrixList,h₁,h₂,h₄,h₆,h₈]

theorem registered_mem {m n : ℕ} {l : List MixingMatrixInfo} {M : List ℚ} (h : registered.go m n l = some M) :
    ∃ e ∈ l, m = e.inChannels ∧ n = e.outChannels ∧ e.pointer = some M := by
  induction l with
  | nil => cases h
  | cons e l ih =>
    rw [registered.go] at h
    by_cases he : m = e.inChannels ∧ n = e.outChannels
    · rw [if_pos he] at h
      exact ⟨e,List.mem_cons_self,he.1,he.2,h⟩
    · rw [if_neg he] at h
      obtain ⟨e',he',hrest⟩ := ih h
      exact ⟨e',List.mem_cons_of_mem _ he',hrest⟩

theorem mixingMatrixList_sizes :
    ∀ e ∈ mixingMatrixList, (e.pointer.getD []).length = e.outChannels*e.inChannels := by decide

theorem registered_length {m n : ℕ} {M : List ℚ} (h : registered m n = some M) : M.length = n*m := by
  obtain ⟨e,he,rfl,rfl,hM⟩ := registered_mem h
  have hsize := mixingMatrixList_sizes e he
  rwa [hM] at hsize

def Kernel.Fits (m n : ℕ) : Kernel → Prop
  | .matrix M => M.length = n*m
  | .mono => m = 1
  | .unrecognized => True

theorem kernel_fits (m n : ℕ) : (kernel m n).Fits m n := by
  rw [kernel_eq]
  cases h : registered m n with
  | some M => exact registered_length h
  | none => by_cases hm : m = 1 <;> simp [hm,Kernel.Fits]

section Dispatch

variable [Zero α]

def start (zeroFirst : Bool) (x : α) : α := if zeroFirst then 0 else x

theorem zeroInterleaved_ends {frames n : ℕ} {output : List α} (zeroFirst : Bool) (hout : frames*n ≤ output.length) :
    Ends (zeroInterleaved frames n output zeroFirst) fun out => out.length = output.length ∧
      (∀ i < frames*n, out[i]? = some (start zeroFirst (output.getD i 0))) ∧
      ∀ i, frames*n ≤ i → out[i]? = output[i]? := by
  cases zeroFirst with
  | false => exact .pure ⟨rfl,fun i hi => getElem?_getD (by omega),fun _ _ => rfl⟩
  | true =>
    have hroom : 0+(List.replicate (frames*n) (0 : α)).length ≤ output.length := by simpa using hout
    refine (Buffer.store_returns hroom).ends ⟨Buffer.length_splice _ hroom,fun i hi => ?_,fun i hi => ?_⟩
    · simp [Buffer.splice,List.getElem?_append,hi,start]
    · have hge : ¬ i < frames*n := by omega
      simp [Buffer.splice,List.getElem?_append,hge,show frames*n+(i-frames*n) = i by omega]

variable [Add α] [Mul α] (lit : ℚ → α)

def Kernel.interleaved (frames m : ℕ) (input : List α) (n : ℕ) (output : List α) : Kernel → Program Empty (List α)
  | .matrix M => applyMixingMatrixInterleaved lit M m n frames input output
  | .mono => upmixMonoInterleaved frames input n output
  | .unrecognized => mixUnrecognizedInterleaved frames m input n output

def Kernel.uninterleaved (frames m : ℕ) (inputs : List (List α)) (n : ℕ) (outputs : List (List α)) :
    Kernel → Program Empty (List (List α))
  | .matrix M => applyMixingMatrixUninterleaved lit M m n frames inputs outputs
  | .mono => do upmixMonoUninterleaved frames (← Buffer.load inputs 0) n outputs
  | .unrecognized => mixUnrecognizedUninterleaved frames m inputs n outputs

theorem ite_eq_apply {β γ : Type*} {c : Prop} [Decidable c] (f : β → γ) {b b' : β} {x x' : γ} (h : c → x = f b)
    (h' : ¬ c → x' = f b') : (if c then x else x') = f (if c then b else b') := by
  by_cases hc : c
  · simpa [hc] using h hc
  · simpa [hc] using h' hc

theorem remixAudioInterleaved_eq (frames m : ℕ) (input : List α) (n : ℕ) (output : List α) (zeroFirst : Bool) :
    remixAudioInterleaved lit frames m input n output zeroFirst = (do
      let output ← zeroInterleaved frames n output zeroFirst
      (kernel m n).interleaved lit frames m input n output) := by
  unfold remixAudioInterleaved kernel
  congr 1
  funext output
  iterate 4
    apply ite_eq_apply
    · rintro ⟨rfl,rfl⟩
      rfl
    intro _
  apply ite_eq_apply
  · intro _
    rfl
  intro _
  iterate 16
    apply ite_eq_apply
    · rintro ⟨rfl,rfl⟩
      rfl
    intro _
  rfl

theorem remixAudioUninterleaved_eq (frames m : ℕ) (inputs : List (List α)) (n : ℕ) (outputs : List (List α))
    (zeroFirst : Bool) :
    remixAudioUninterleaved lit frames m inputs n outputs zeroFirst = (do
      let outputs ← zeroUninterleaved frames n outputs zeroFirst
      (kernel m n).uninterleaved lit frames m inputs n outputs) := by
  unfold remixAudioUninterleaved kernel
  congr 1
  funext outputs
  iterate 4
    apply ite_eq_apply
    · rintro ⟨rfl,rfl⟩
      rfl
    intro _
  apply ite_eq_apply
  · intro _
    rfl
  intro _
  iterate 16
    apply ite_eq_apply
    · rintro ⟨rfl,rfl⟩
      rfl
    intro _
  rfl

theorem Kernel.Fits.interleaved_returns {K : Kernel} {frames m n : ℕ} {input output : List α} (hK : K.Fits m n)
    (hm : 1 ≤ m) (hin : frames*m ≤ input.length) (hout : frames*n ≤ output.length) :
    Returns (K.interleaved lit frames m input n output)
      (arrayCells.addAll output (updates (fun f j => f*n+j) frames n fun f j =>
        K.terms lit m (fun k => input.getD (f*m+k) 0) j)) := by
  cases K with
  | matrix M => exact applyMixingMatrixInterleaved_returns lit hm hK hin hout
  | mono =>
    obtain rfl : m = 1 := hK
    have h := upmixMonoInterleaved_returns (n := n) (by simpa using hin) hout
    simp only [Kernel.terms,Nat.mul_one,Nat.add_zero]
    exact h
  | unrecognized => exact mixUnrecognizedInterleaved_returns hm hin hout

/-- The interleaved remix, cell by cell: what the kernel adds to the start value, and
nothing beyond the frames. -/
theorem remixAudioInterleaved_ends {frames m n : ℕ} {input output : List α} (zeroFirst : Bool) (hm : 1 ≤ m)
    (hin : frames*m ≤ input.length) (hout : frames*n ≤ output.length) :
    Ends (remixAudioInterleaved lit frames m input n output zeroFirst) fun out => out.length = output.length ∧
      (∀ f < frames, ∀ j < n, out[f*n+j]? = some (total (start zeroFirst (output.getD (f*n+j) 0))
        ((kernel m n).terms lit m (fun k => input.getD (f*m+k) 0) j))) ∧
      ∀ i, frames*n ≤ i → out[i]? = output[i]? := by
  rw [remixAudioInterleaved_eq]
  refine (zeroInterleaved_ends zeroFirst hout).bind fun out₀ ⟨hlen,hstart,hother⟩ => ?_
  have hmix := (kernel_fits m n).interleaved_returns lit hm hin (hlen ▸ hout)
  refine hmix.ends ⟨(length_addAll _ _).trans hlen,fun f hf j hj => ?_,fun i hi => ?_⟩
  · have hget := get_addAll arrayCells out₀ (updates (fun f j => f*n+j) frames n fun f j =>
      (kernel m n).terms lit m (fun k => input.getD (f*m+k) 0) j) (f*n+j)
    rw [terms_updates (fun f j => f*n+j) _ hf hj fun f' _ j' hj' h => interleaved_inj hj hj' h] at hget
    change _ = (out₀[f*n+j]?).map _ at hget
    rw [hstart _ (interleaved_lt hf hj le_rfl)] at hget
    exact hget
  · have hget := get_addAll arrayCells out₀ (updates (fun f j => f*n+j) frames n fun f j =>
      (kernel m n).terms lit m (fun k => input.getD (f*m+k) 0) j) i
    rw [terms_updates_other _ fun f hf j hj => (interleaved_lt hf hj hi).ne] at hget
    change _ = (out₀[i]?).map _ at hget
    rw [hother i hi] at hget
    exact hget.trans (by simp [total])

end Dispatch

section Uninterleaved

variable [Zero α]

omit [Zero α] in
theorem getD_modify_self {xss : List (List α)} {i : ℕ} (xs : List α) (hi : i < xss.length) :
    (xss.modify i fun _ => xs).getD i [] = xs := by
  simp [List.getD_eq_getElem?_getD,hi]

omit [Zero α] in
theorem getD_modify_other {xss : List (List α)} {i j : ℕ} (xs : List α) (h : i ≠ j) :
    (xss.modify i fun _ => xs).getD j [] = xss.getD j [] := by
  simp [List.getD_eq_getElem?_getD,h]

theorem zeroUninterleaved_ends {frames n : ℕ} {outputs : List (List α)} (zeroFirst : Bool)
    (hout : Planar frames n outputs) :
    Ends (zeroUninterleaved frames n outputs zeroFirst) fun outs => Planar frames n outs ∧
      ∀ f < frames, ∀ j < n, (outs.getD j []).getD f 0 = start zeroFirst ((outputs.getD j []).getD f 0) := by
  cases zeroFirst with
  | false => exact .pure ⟨hout,fun _ _ _ _ => rfl⟩
  | true =>
    let I : ℕ → List (List α) → Prop := fun i outs => Planar frames n outs ∧
      ∀ f < frames, ∀ j < i, (outs.getD j []).getD f 0 = 0
    refine Ends.imp (.forLoop I ⟨hout,by simp⟩ ?_) fun outs h => h
    rintro i outs hi ⟨hplanar,hzero⟩
    have hroom : 0+(List.replicate frames (0 : α)).length ≤ (outs.getD i []).length := by
      simpa using hplanar.2 i hi
    refine (Buffer.load_returns (hplanar.getElem? hi)).then ((Buffer.store_returns hroom).then ?_)
    refine (Buffer.modify_returns _ (hi.trans_le hplanar.1)).ends ⟨⟨?_,fun j hj => ?_⟩,fun f hf j hj => ?_⟩
    · simpa using hplanar.1
    · by_cases hij : i = j
      · subst hij
        rw [getD_modify_self _ (hi.trans_le hplanar.1),Buffer.length_splice _ hroom]
        exact hplanar.2 i hi
      · rw [getD_modify_other _ hij]
        exact hplanar.2 j hj
    · by_cases hij : i = j
      · subst hij
        rw [getD_modify_self _ (hi.trans_le hplanar.1)]
        simp [Buffer.splice,List.getElem?_append,hf]
      · rw [getD_modify_other _ hij]
        exact hzero f hf j (by omega)

variable [Add α] [CommMagma α] (lit : ℚ → α)

/-- Multiplied the other way round, the updates of a cell are the same. -/
theorem Kernel.Fits.uninterleaved_returns {K : Kernel} {frames m n : ℕ} {inputs outputs : List (List α)}
    (hK : K.Fits m n) (hm : 1 ≤ m) (hin : Planar frames m inputs) (hout : Planar frames n outputs) :
    ∃ us, Returns (K.uninterleaved lit frames m inputs n outputs) (channelCells.addAll outputs us) ∧
      ∀ f < frames, ∀ j < n, Cells.terms (j,f) us = K.terms lit m (fun k => (inputs.getD k []).getD f 0) j := by
  cases K with
  | matrix M =>
    refine ⟨_,applyMixingMatrixUninterleaved_returns lit hK hin hout,fun f hf j hj => ?_⟩
    rw [terms_updates (fun f j => (j,f)) _ hf hj fun f' _ j' _ h => by simp_all]
    simp only [Kernel.terms,mul_comm]
  | mono =>
    obtain rfl : m = 1 := hK
    refine ⟨_,(Buffer.load_returns (hin.getElem? Nat.one_pos)).bind
      (upmixMonoUninterleaved_returns (hin.2 0 Nat.one_pos) hout),fun f hf j hj => ?_⟩
    rw [terms_updates (fun f j => (j,f)) _ hf hj fun f' _ j' _ h => by simp_all]
    rfl
  | unrecognized =>
    refine ⟨_,mixUnrecognizedUninterleaved_returns hin hout,fun f hf j hj => ?_⟩
    rw [terms_updates (fun j f => (j,f)) _ hj hf fun j' _ f' _ h => by simp_all]
    rfl

theorem remixAudioUninterleaved_ends {frames m n : ℕ} {inputs outputs : List (List α)} (zeroFirst : Bool)
    (hm : 1 ≤ m) (hin : Planar frames m inputs) (hout : Planar frames n outputs) :
    Ends (remixAudioUninterleaved lit frames m inputs n outputs zeroFirst) fun outs => Planar frames n outs ∧
      ∀ f < frames, ∀ j < n, (outs.getD j []).getD f 0 = total (start zeroFirst ((outputs.getD j []).getD f 0))
        ((kernel m n).terms lit m (fun k => (inputs.getD k []).getD f 0) j) := by
  rw [remixAudioUninterleaved_eq]
  refine (zeroUninterleaved_ends zeroFirst hout).bind fun outs₀ ⟨hplanar,hstart⟩ => ?_
  obtain ⟨us,hreturns,hterms⟩ := (kernel_fits m n).uninterleaved_returns lit hm hin hplanar
  refine hreturns.ends ⟨hplanar.of_map_length (map_length_addAll _ _),fun f hf j hj => ?_⟩
  have hget := get_addAll channelCells outs₀ us (j,f)
  obtain ⟨x,hx⟩ := Option.isSome_iff_exists.mp (hplanar.isSome hj hf)
  have hbefore := getD_of_get hx
  rw [hterms f hf j hj,hx,← hbefore,hstart f hf j hj] at hget
  exact getD_of_get hget

end Uninterleaved

section Layout

variable [Zero α]

def deinterleave (count frames : ℕ) (xs : List α) : List (List α) :=
  (List.range count).map fun j => (List.range frames).map fun f => xs.getD (f*count+j) 0

def interleave (count frames : ℕ) (xss : List (List α)) : List α :=
  (List.range (frames*count)).map fun i => (xss.getD (i%count) []).getD (i/count) 0

theorem getD_deinterleave {count frames : ℕ} (xs : List α) {j f : ℕ} (hj : j < count) (hf : f < frames) :
    ((deinterleave count frames xs).getD j []).getD f 0 = xs.getD (f*count+j) 0 := by
  simp [deinterleave,hj,hf]

theorem planar_deinterleave (count frames : ℕ) (xs : List α) : Planar frames count (deinterleave count frames xs) := by
  constructor
  · simp [deinterleave]
  · intro j hj
    simp [deinterleave,hj]

end Layout

/-- Remixing the channels one by one and interleaving them is remixing the interleaved
samples, for every pair of channel counts. -/
theorem interleave_remix [Zero α] [Add α] [CommMagma α] (lit : ℚ → α) (frames : ℕ) {m n : ℕ} (hm : 1 ≤ m) (hn : 1 ≤ n)
    {input output : List α} (hin : input.length = frames*m) (hout : output.length = frames*n) (zeroFirst : Bool) :
    ∃ outs, Returns (remixAudioUninterleaved lit frames m (deinterleave m frames input) n
        (deinterleave n frames output) zeroFirst) outs ∧ Planar frames n outs ∧
      Returns (remixAudioInterleaved lit frames m input n output zeroFirst) (interleave n frames outs) := by
  obtain ⟨outs,houts,hplanar,hcells⟩ := remixAudioUninterleaved_ends lit zeroFirst hm
    (planar_deinterleave m frames input) (planar_deinterleave n frames output)
  refine ⟨outs,houts,hplanar,((remixAudioInterleaved_ends lit zeroFirst hm hin.ge hout.ge).imp ?_).returns⟩
  rintro out ⟨hlen,hsame,_⟩
  apply List.ext_getElem?
  intro i
  by_cases hi : i < frames*n
  · have hf : i/n < frames := Nat.div_lt_of_lt_mul (by rwa [Nat.mul_comm] at hi)
    have hj : i%n < n := Nat.mod_lt i hn
    have hout := hsame (i/n) hf (i%n) hj
    have hcell := hcells (i/n) hf (i%n) hj
    rw [getD_deinterleave output hj hf] at hcell
    rw [Nat.div_add_mod' i n] at hout hcell
    rw [Kernel.terms_congr lit (kernel m n) hm (i%n) fun k hk => getD_deinterleave input hk hf] at hcell
    rw [hout,← hcell]
    simp [interleave,hi]
  · rw [List.getElem?_eq_none (by omega),List.getElem?_eq_none (by simp [interleave]; omega)]

/-- Mono to stereo. -/
theorem interleave_remix_mono : ∃ outs, Returns (remixAudioUninterleaved (id : ℚ → ℚ) 2 1 (deinterleave 1 2 [3,5]) 2
      (deinterleave 2 2 [0,1,0,1]) false) outs ∧ Planar 2 2 outs ∧
    Returns (remixAudioInterleaved id 2 1 [3,5] 2 [0,1,0,1] false) (interleave 2 2 outs) :=
  interleave_remix id 2 le_rfl (by decide) rfl rfl false

/-- The coefficient of input channel `k` in output channel `j`: the registered matrix,
else a column of ones for mono, else the truncated identity. -/
def mixingEntry (m n j k : ℕ) : ℚ :=
  match registered m n with
  | some M => M.getD (j*m+k) 0
  | none => if m = 1 then 1 else if j = k then 1 else 0

section Exact

open Finset

variable {K : Type} [Field K]

theorem total_eq_add_sum (x : K) (ts : List K) : total x ts = x+ts.sum := by
  induction ts generalizing x with
  | nil => simp [total]
  | cons t ts ih =>
    change total (x+t) ts = _
    rw [ih,List.sum_cons,add_assoc]

theorem sum_identity (m : ℕ) (x : ℕ → K) (j : ℕ) :
    ∑ k ∈ range m, ((if j = k then 1 else 0 : ℚ) : K)*x k = if j < m then x j else 0 := by
  simp [apply_ite (Rat.cast : ℚ → K)]

theorem sum_terms {m : ℕ} (hm : 1 ≤ m) (n : ℕ) (x : ℕ → K) (j : ℕ) :
    ((kernel m n).terms (fun q => (q : K)) m x j).sum = ∑ k ∈ range m, (mixingEntry m n j k : K)*x k := by
  rw [kernel_eq]
  unfold mixingEntry
  cases registered m n with
  | some M => rfl
  | none =>
    by_cases h₁ : m = 1
    · subst h₁
      simp [Kernel.terms]
    · simp only [h₁,if_false,Kernel.terms]
      rw [sum_identity]
      by_cases hj : j < m <;> simp [hj]

theorem registered_self (n : ℕ) : registered n n = none := by
  have hnone : ∀ e ∈ mixingMatrixList, e.inChannels = e.outChannels → e.pointer.isNone := by decide
  cases h : registered n n with
  | none => rfl
  | some M =>
    obtain ⟨e,he,hin,hout,hM⟩ := registered_mem h
    have hp := hnone e he (hin.symm.trans hout)
    simp [hM] at hp

theorem sum_mixingEntry_self {n : ℕ} (x : ℕ → K) {j : ℕ} (hj : j < n) :
    ∑ k ∈ range n, (mixingEntry n n j k : K)*x k = x j := by
  unfold mixingEntry
  rw [registered_self]
  by_cases h₁ : n = 1
  · subst h₁
    obtain rfl : j = 0 := by omega
    simp
  · simp only [h₁,if_false]
    rw [sum_identity,if_pos hj]

/-- Output channel `j` of a frame, without its start value. -/
def mixedFrame (m n : ℕ) (x : ℕ → K) (j : ℕ) : K := ∑ k ∈ range m, (mixingEntry m n j k : K)*x k

theorem mixedFrame_congr {m n : ℕ} {x y : ℕ → K} (h : ∀ k < m, x k = y k) (j : ℕ) :
    mixedFrame m n x j = mixedFrame m n y j :=
  sum_congr rfl fun k hk => by rw [h k (mem_range.mp hk)]

theorem remixAudioInterleaved_frames {frames m n : ℕ} {input output : List K} (zeroFirst : Bool) (hm : 1 ≤ m)
    (hin : frames*m ≤ input.length) (hout : frames*n ≤ output.length) :
    Ends (remixAudioInterleaved (fun q => (q : K)) frames m input n output zeroFirst) fun out =>
      out.length = output.length ∧ ∀ f < frames, ∀ j < n, out.getD (f*n+j) 0 =
        start zeroFirst (output.getD (f*n+j) 0)+mixedFrame m n (fun k => input.getD (f*m+k) 0) j := by
  refine (remixAudioInterleaved_ends (fun q => (q : K)) zeroFirst hm hin hout).imp ?_
  rintro out ⟨hlen,hcells,-⟩
  refine ⟨hlen,fun f hf j hj => ?_⟩
  rw [List.getD_eq_getElem?_getD,hcells f hf j hj,Option.getD_some,total_eq_add_sum,sum_terms hm]
  rfl

end Exact

/-- In exact arithmetic each output sample is its start value and the row of the matrix
times the frame; nothing past the frames is touched; and with as many channels out as
in the remix that zeroes first copies its input. -/
theorem remix_matrix {K : Type} [Field K] (frames : ℕ) {m n : ℕ} (hm : 1 ≤ m) {input output : List K}
    (hin : frames*m ≤ input.length) (hout : frames*n ≤ output.length) (zeroFirst : Bool) :
    ∃ out, Returns (remixAudioInterleaved (fun q => (q : K)) frames m input n output zeroFirst) out ∧
      out.length = output.length ∧
      (∀ f < frames, ∀ j < n, out[f*n+j]? = some ((if zeroFirst then 0 else output.getD (f*n+j) 0)+
        ∑ k ∈ Finset.range m, (mixingEntry m n j k : K)*input.getD (f*m+k) 0)) ∧
      (∀ i, frames*n ≤ i → out[i]? = output[i]?) ∧
      (m = n → zeroFirst = true → ∀ i < frames*n, out[i]? = input[i]?) := by
  obtain ⟨out,hreturns,hlen,hcells,hother⟩ := remixAudioInterleaved_ends (fun q => (q : K)) zeroFirst hm hin hout
  have hsum : ∀ f < frames, ∀ j < n, out[f*n+j]? = some ((if zeroFirst then 0 else output.getD (f*n+j) 0)+
      ∑ k ∈ Finset.range m, (mixingEntry m n j k : K)*input.getD (f*m+k) 0) := by
    intro f hf j hj
    rw [hcells f hf j hj,total_eq_add_sum,sum_terms hm]
    rfl
  refine ⟨out,hreturns,hlen,hsum,hother,?_⟩
  rintro rfl rfl i hi
  have hf : i/m < frames := Nat.div_lt_of_lt_mul (by rwa [Nat.mul_comm] at hi)
  have hcell := hsum (i/m) hf (i%m) (Nat.mod_lt i hm)
  rw [sum_mixingEntry_self _ (Nat.mod_lt i hm),if_pos rfl,zero_add,Nat.div_add_mod' i m] at hcell
  rw [hcell,getElem?_getD (by omega)]

/-- One frame of 5.1 mixed down to stereo. -/
theorem remix_matrix_downmix : ∃ out, Returns (remixAudioInterleaved (fun q => ((q : ℚ) : ℚ)) 1 6 [1,0,0,0,0,0] 2
      [5,5] true) out ∧ out[0]? = some 1 ∧ out.length = 2 := by
  have hin : 1*6 ≤ ([1,0,0,0,0,0] : List ℚ).length := by decide
  have hout : 1*2 ≤ ([5,5] : List ℚ).length := by decide
  obtain ⟨out,hreturns,hlen,hcells,_⟩ := remix_matrix 1 (by decide) hin hout true
  have hrow : ∑ k ∈ Finset.range 6, mixingEntry 6 2 0 k*([1,0,0,0,0,0] : List ℚ).getD (0*6+k) 0 = 1 := by
    decide +kernel
  have hcell := hcells 0 (by decide) 0 (by decide)
  simp only [Rat.cast_id] at hcell
  rw [hrow] at hcell
  exact ⟨out,hreturns,by simpa using hcell,hlen⟩

end Remix
end AudioOutput
