import AudioOutput.Remix

/-!
# What the remix loops add to each channel

Each of the six loops runs to its end inside its arrays and does the updates
that its kernel prescribes, each cell's in the same order for both layouts.
-/

namespace AudioOutput
namespace Remix

open Program Cells

variable {α : Type}

theorem addToChannel_returns [Add α] {outputs : List (List α)} {channel i : ℕ} (x : α)
    (h : (channelCells.get outputs (channel,i)).isSome) :
    Returns (addToChannel outputs channel i x) (channelCells.add outputs (channel,i) x) := by
  obtain ⟨y,hy⟩ := Option.isSome_iff_exists.mp h
  obtain ⟨out,hout,hi⟩ := Option.bind_eq_some_iff.mp hy
  obtain ⟨hlt,_⟩ := List.getElem?_eq_some_iff.mp hi
  obtain ⟨hrow,_⟩ := List.getElem?_eq_some_iff.mp hout
  have hmodify : outputs.modify channel (fun _ => out.modify i (· + x)) =
      outputs.modify channel fun ch => ch.modify i (· + x) := by
    apply List.ext_getElem?
    intro j
    rw [List.getElem?_modify,List.getElem?_modify]
    by_cases hj : channel = j
    · subst hj
      simp [hout]
    · simp [hj]
  change Returns _ (outputs.modify channel fun ch => ch.modify i (· + x))
  rw [← hmodify]
  exact (Buffer.load_returns hout).bind ((Buffer.modify_returns _ hlt).bind (Buffer.modify_returns _ hrow))

theorem getElem?_getD [Zero α] {xs : List α} {i : ℕ} (h : i < xs.length) : xs[i]? = some (xs.getD i 0) := by
  rw [List.getD_eq_getElem?_getD,List.getElem?_eq_getElem h]
  rfl

theorem isSome_array [Add α] {m m' : List α} (h : arrayCells.Alike m m') {i : ℕ} (hi : i < m.length) :
    i < m'.length := by
  have hi' := (h i).trans (by simp [arrayCells,hi] : _ = true)
  simpa [arrayCells] using hi'

theorem interleaved_lt {frames n f j len : ℕ} (hf : f < frames) (hj : j < n) (h : frames*n ≤ len) : f*n+j < len := by
  have hle : (f+1)*n ≤ frames*n := Nat.mul_le_mul_right n hf
  rw [Nat.succ_mul] at hle
  omega

theorem interleaved_inj {n f f' j j' : ℕ} (hj : j < n) (hj' : j' < n) (h : f'*n+j' = f*n+j) : f' = f ∧ j' = j := by
  have hdiv := congrArg (· / n) h
  have hmod := congrArg (· % n) h
  simp only [Nat.mul_add_mod_of_lt hj,Nat.mul_add_mod_of_lt hj'] at hmod
  refine ⟨?_,hmod⟩
  have hn : 0 < n := by omega
  simpa [Nat.mul_comm _ n,Nat.mul_add_div hn,Nat.div_eq_of_lt hj,Nat.div_eq_of_lt hj'] using hdiv

section Interleaved

variable [Zero α] [Add α]

theorem upmixMonoInterleaved_returns {frames n : ℕ} {input output : List α} (hin : frames ≤ input.length)
    (hout : frames*n ≤ output.length) :
    Returns (upmixMonoInterleaved frames input n output)
      (arrayCells.addAll output (updates (fun f j => f*n+j) frames n fun f _ => [input.getD f 0])) := by
  let us : ℕ → List (ℕ × α) := fun f => (List.range n).flatMap fun j => [(f*n+j,input.getD f 0)]
  have h : Returns (upmixMonoInterleaved (frames*1) input n output)
      (arrayCells.addAll output ((List.range frames).flatMap us)) := by
    refine .stridedLoop_addAll us le_rfl fun f hf m' hm' => ?_
    refine .forLoop_addAll (fun j => [(f*n+j,input.getD f 0)]) fun j hj m'' hm'' => ?_
    rw [Nat.mul_one]
    refine (Buffer.load_returns (getElem?_getD (by omega))).bind (Buffer.modify_returns _ ?_)
    exact isSome_array (hm'.trans hm'') (interleaved_lt hf hj hout)
  rwa [Nat.mul_one] at h

theorem flatMap_range_min {β : Type*} (m n : ℕ) (g : ℕ → List β) :
    (List.range (min m n)).flatMap g = (List.range n).flatMap fun j => if j < m then g j else [] := by
  induction n with
  | zero => simp
  | succ n ih =>
    rw [List.range_succ,List.flatMap_append,List.flatMap_singleton,← ih]
    by_cases h : n < m
    · rw [if_pos h,Nat.min_eq_right (by omega : n+1 ≤ m),Nat.min_eq_right h.le,List.range_succ,
        List.flatMap_append,List.flatMap_singleton]
    · rw [if_neg h,Nat.min_eq_left (by omega : m ≤ n+1),Nat.min_eq_left (by omega : m ≤ n),List.append_nil]

theorem mixUnrecognizedInterleaved_returns {frames m n : ℕ} {input output : List α} (hm : 1 ≤ m)
    (hin : frames*m ≤ input.length) (hout : frames*n ≤ output.length) :
    Returns (mixUnrecognizedInterleaved frames m input n output)
      (arrayCells.addAll output (updates (fun f j => f*n+j) frames n fun f j =>
        if j < m then [input.getD (f*m+j) 0] else [])) := by
  have hupdates : updates (fun f j => f*n+j) frames n (fun f j => if j < m then [input.getD (f*m+j) 0] else []) =
      (List.range frames).flatMap fun f => (List.range (min m n)).flatMap fun j =>
        [(f*n+j,input.getD (f*m+j) 0)] := by
    refine List.flatMap_congr fun f _ => ?_
    rw [flatMap_range_min]
    refine List.flatMap_congr fun j _ => ?_
    by_cases hj : j < m <;> simp [hj]
  rw [hupdates,mixUnrecognizedInterleaved]
  refine .stridedLoop_addAll (fun f => (List.range (min m n)).flatMap fun j => [(f*n+j,input.getD (f*m+j) 0)]) hm
    fun f hf m' hm' => ?_
  refine .forLoop_addAll (fun j => [(f*n+j,input.getD (f*m+j) 0)]) fun j hj m'' hm'' => ?_
  obtain ⟨hjm,hjn⟩ := lt_min_iff.mp hj
  refine (Buffer.load_returns (getElem?_getD (interleaved_lt hf hjm hin))).bind (Buffer.modify_returns _ ?_)
  exact isSome_array (hm'.trans hm'') (interleaved_lt hf hjn hout)

variable [Mul α] (lit : ℚ → α)

theorem applyMixingMatrixInterleaved_returns {matrix : List ℚ} {frames m n : ℕ} {input output : List α} (hm : 1 ≤ m)
    (hmatrix : matrix.length = n*m) (hin : frames*m ≤ input.length) (hout : frames*n ≤ output.length) :
    Returns (applyMixingMatrixInterleaved lit matrix m n frames input output)
      (arrayCells.addAll output (updates (fun f j => f*n+j) frames n fun f j =>
        (List.range m).map fun k => lit (matrix.getD (j*m+k) 0)*input.getD (f*m+k) 0)) := by
  rw [applyMixingMatrixInterleaved,Nat.mul_comm m frames]
  refine .stridedLoop_addAll (fun f => (List.range n).flatMap fun j => ((List.range m).map fun k =>
    lit (matrix.getD (j*m+k) 0)*input.getD (f*m+k) 0).map fun x => (f*n+j,x)) hm fun f hf m' hm' => ?_
  have hframe : f*m+m ≤ input.length := by
    rw [← Nat.succ_mul]
    exact (Nat.mul_le_mul_right m hf).trans hin
  refine (Buffer.region_returns hframe).bind (.forLoop_addAll _ fun j hj m'' hm'' => ?_)
  refine .forLoop_add (fun k => lit (matrix.getD (j*m+k) 0)*input.getD (f*m+k) 0) fun k hk m₃ hm₃ => ?_
  have hcoef : matrix[j*m+k]? = some (matrix.getD (j*m+k) 0) := getElem?_getD (interleaved_lt hj hk hmatrix.ge)
  have hload : (Buffer.slice input (f*m) m)[k]? = some (input.getD (f*m+k) 0) := by
    rw [Buffer.slice,List.getElem?_take_of_lt hk,List.getElem?_drop]
    exact getElem?_getD (by omega)
  refine (Buffer.load_returns hcoef).bind ((Buffer.load_returns hload).bind (Buffer.modify_returns _ ?_))
  exact isSome_array ((hm'.trans hm'').trans hm₃) (interleaved_lt hf hj hout)

end Interleaved

section Uninterleaved

/-- `count` arrays with room for `frames` samples each. -/
def Planar (frames count : ℕ) (xss : List (List α)) : Prop :=
  count ≤ xss.length ∧ ∀ j < count, frames ≤ (xss.getD j []).length

theorem Planar.of_map_length {frames count : ℕ} {xss yss : List (List α)} (h : Planar frames count xss)
    (hlen : yss.map List.length = xss.map List.length) : Planar frames count yss := by
  have hl : yss.length = xss.length := by simpa using congrArg List.length hlen
  refine ⟨hl ▸ h.1,fun j hj => ?_⟩
  have hcell := congrArg (fun l => l.getD j 0) hlen
  have hget (zss : List (List α)) : (zss.map List.length).getD j 0 = (zss.getD j []).length := by
    simp only [List.getD_eq_getElem?_getD,List.getElem?_map]
    cases zss[j]? <;> rfl
  simp only [hget] at hcell
  exact (h.2 j hj).trans hcell.ge

theorem Planar.getElem? {frames count : ℕ} {xss : List (List α)} (h : Planar frames count xss) {j : ℕ}
    (hj : j < count) : xss[j]? = some (xss.getD j []) := by
  rw [List.getD_eq_getElem?_getD,List.getElem?_eq_getElem (hj.trans_le h.1)]
  rfl

theorem getD_of_get [Zero α] [Add α] {xss : List (List α)} {j f : ℕ} {x : α}
    (h : channelCells.get xss (j,f) = some x) : (xss.getD j []).getD f 0 = x := by
  obtain ⟨xs,hxs,hx⟩ := Option.bind_eq_some_iff.mp h
  rw [List.getD_eq_getElem?_getD,List.getD_eq_getElem?_getD,hxs,Option.getD_some,hx,Option.getD_some]

theorem Planar.isSome [Add α] {frames count : ℕ} {xss : List (List α)} (h : Planar frames count xss) {j f : ℕ}
    (hj : j < count) (hf : f < frames) : (channelCells.get xss (j,f)).isSome = true := by
  have hlt := hf.trans_le (h.2 j hj)
  change (xss[j]?.bind (·[f]?)).isSome = true
  rw [h.getElem? hj,Option.bind_some,List.getElem?_eq_getElem hlt]
  rfl

variable [Zero α] [Add α]

theorem upmixMonoUninterleaved_returns {frames n : ℕ} {input : List α} {outputs : List (List α)}
    (hin : frames ≤ input.length) (hout : Planar frames n outputs) :
    Returns (upmixMonoUninterleaved frames input n outputs)
      (channelCells.addAll outputs (updates (fun f j => (j,f)) frames n fun f _ => [input.getD f 0])) := by
  refine .forLoop_addAll (fun f => (List.range n).flatMap fun j => [((j,f),input.getD f 0)]) fun f hf m' hm' => ?_
  refine .forLoop_addAll (fun j => [((j,f),input.getD f 0)]) fun j hj m'' hm'' => ?_
  refine (Buffer.load_returns (getElem?_getD (by omega))).bind (addToChannel_returns _ ?_)
  exact ((hm'.trans hm'') (j,f)).trans (hout.isSome hj hf)

theorem mixUnrecognizedUninterleaved_returns {frames m n : ℕ} {inputs outputs : List (List α)}
    (hin : Planar frames m inputs) (hout : Planar frames n outputs) :
    Returns (mixUnrecognizedUninterleaved frames m inputs n outputs)
      (channelCells.addAll outputs (updates (fun j f => (j,f)) n frames fun j f =>
        if j < m then [(inputs.getD j []).getD f 0] else [])) := by
  have hupdates : updates (fun j f => (j,f)) n frames
      (fun j f => if j < m then [(inputs.getD j []).getD f 0] else []) =
      (List.range (min m n)).flatMap fun j => (List.range frames).flatMap fun f =>
        [((j,f),(inputs.getD j []).getD f 0)] := by
    rw [flatMap_range_min]
    refine List.flatMap_congr fun j _ => ?_
    by_cases hj : j < m <;> simp [hj]
  rw [hupdates,mixUnrecognizedUninterleaved]
  refine .forLoop_addAll (fun j => (List.range frames).flatMap fun f => [((j,f),(inputs.getD j []).getD f 0)])
    fun j hj m' hm' => ?_
  refine .forLoop_addAll (fun f => [((j,f),(inputs.getD j []).getD f 0)]) fun f hf m'' hm'' => ?_
  obtain ⟨hjm,hjn⟩ := lt_min_iff.mp hj
  have hload := getElem?_getD (hf.trans_le (hin.2 j hjm))
  refine (Buffer.load_returns (hin.getElem? hjm)).bind ((Buffer.load_returns hload).bind (addToChannel_returns _ ?_))
  exact ((hm'.trans hm'') (j,f)).trans (hout.isSome hjn hf)

omit [Add α] in
theorem gather_returns {frames m f : ℕ} {inputs : List (List α)} (hin : Planar frames m inputs) (hf : f < frames) :
    Returns (forLoop m (fun j frame => do
        let input ← Buffer.load inputs j
        return frame ++ [← Buffer.load input f]) [] : Program Empty (List α))
      ((List.range m).map fun k => (inputs.getD k []).getD f 0) := by
  refine (Ends.forLoop (fun j frame => frame = (List.range j).map fun k => (inputs.getD k []).getD f 0) rfl ?_).returns
  rintro j frame hj rfl
  have hload := getElem?_getD (hf.trans_le (hin.2 j hj))
  refine (Buffer.load_returns (hin.getElem? hj)).then ((Buffer.load_returns hload).then (.pure ?_))
  rw [List.range_succ,List.map_append]
  rfl

variable [Mul α] (lit : ℚ → α)

theorem applyMixingMatrixUninterleaved_returns {matrix : List ℚ} {frames m n : ℕ} {inputs outputs : List (List α)}
    (hmatrix : matrix.length = n*m) (hin : Planar frames m inputs) (hout : Planar frames n outputs) :
    Returns (applyMixingMatrixUninterleaved lit matrix m n frames inputs outputs)
      (channelCells.addAll outputs (updates (fun f j => (j,f)) frames n fun f j =>
        (List.range m).map fun k => (inputs.getD k []).getD f 0*lit (matrix.getD (j*m+k) 0))) := by
  refine .forLoop_addAll (fun f => (List.range n).flatMap fun j => ((List.range m).map fun k =>
    (inputs.getD k []).getD f 0*lit (matrix.getD (j*m+k) 0)).map fun x => ((j,f),x)) fun f hf m' hm' => ?_
  refine (gather_returns hin hf).bind (.forLoop_addAll _ fun j hj m'' hm'' => ?_)
  refine .forLoop_add (fun k => (inputs.getD k []).getD f 0*lit (matrix.getD (j*m+k) 0)) fun k hk m₃ hm₃ => ?_
  have hcoef : matrix[j*m+k]? = some (matrix.getD (j*m+k) 0) := getElem?_getD (interleaved_lt hj hk hmatrix.ge)
  have hload : ((List.range m).map fun k => (inputs.getD k []).getD f 0)[k]? = some ((inputs.getD k []).getD f 0) := by
    simp [hk]
  refine (Buffer.load_returns hload).bind ((Buffer.load_returns hcoef).bind (addToChannel_returns _ ?_))
  exact (((hm'.trans hm'').trans hm₃) (j,f)).trans (hout.isSome hj hf)

end Uninterleaved

end Remix
end AudioOutput
