import AudioOutput.Program

/-!
# Arrays of frames

An array whose frames have `count` samples is `count` lanes, one for each channel.
Cutting the array between frames cuts every lane, and storing the lanes one after
the other, each with its own stride, stores the array.
-/

namespace AudioOutput
namespace Buffer

universe u v
variable {α : Type u}

/-- Every `stride`-th cell from `pos` on. -/
def scatter (stride : ℕ) : List α → ℕ → List α → List α
  | dst, _, [] => dst
  | dst, pos, x :: xs => scatter stride (dst.set pos x) (pos+stride) xs

@[simp] theorem length_scatter (stride : ℕ) (dst : List α) (pos : ℕ) (xs : List α) :
    (scatter stride dst pos xs).length = dst.length := by
  induction xs generalizing dst pos with
  | nil => rfl
  | cons x xs ih => rw [scatter,ih,List.length_set]

theorem scatter_append (stride : ℕ) (dst : List α) (pos : ℕ) (xs ys : List α) :
    scatter stride dst pos (xs ++ ys) = scatter stride (scatter stride dst pos xs) (pos+xs.length*stride) ys := by
  induction xs generalizing dst pos with
  | nil => simp [scatter]
  | cons x xs ih =>
    have hpos : pos+stride+xs.length*stride = pos+(xs.length+1)*stride := by ring
    rw [List.cons_append,scatter,ih,scatter,hpos,List.length_cons]

theorem getElem?_scatter_other {stride : ℕ} {dst : List α} {pos : ℕ} {xs : List α} {i : ℕ}
    (h : ∀ k < xs.length, pos+k*stride ≠ i) : (scatter stride dst pos xs)[i]? = dst[i]? := by
  induction xs generalizing dst pos with
  | nil => rfl
  | cons x xs ih =>
    have hfirst : pos ≠ i := by simpa using h 0 (by simp)
    have hrest (k : ℕ) (hk : k < xs.length) : pos+stride+k*stride ≠ i := by
      have hne := h (k+1) (by simpa using hk)
      rwa [Nat.succ_mul,Nat.add_comm (k*stride),← Nat.add_assoc] at hne
    rw [scatter,ih hrest,List.getElem?_set_ne hfirst]

theorem getElem?_scatter {stride : ℕ} (hstride : 0 < stride) {dst : List α} {pos : ℕ} {xs : List α} {k : ℕ}
    (hk : k < xs.length) (hfit : pos+k*stride < dst.length) : (scatter stride dst pos xs)[pos+k*stride]? = xs[k]? := by
  induction xs generalizing dst pos k with
  | nil => cases hk
  | cons x xs ih =>
    cases k with
    | zero =>
      have hother (j : ℕ) (_ : j < xs.length) : pos+stride+j*stride ≠ pos+0*stride := by
        have := Nat.zero_le (j*stride)
        omega
      rw [scatter,getElem?_scatter_other hother,Nat.zero_mul,Nat.add_zero,List.getElem?_set_self (by simpa using hfit)]
      rfl
    | succ k =>
      have hpos : pos+(k+1)*stride = pos+stride+k*stride := by ring
      rw [scatter,hpos,ih (by simpa using hk) (by rw [List.length_set,← hpos]; exact hfit),List.getElem?_cons_succ]

section Lanes

variable [Zero α]

def lane (count i : ℕ) (xs : List α) : List α := (List.range (xs.length/count)).map fun j => xs.getD (j*count+i) 0

variable {count i n m : ℕ} {xs ys : List α}

theorem lane_index_lt (hi : i < count) {j : ℕ} : j*count+i < n*count ↔ j < n := by
  constructor
  · intro h
    exact Nat.lt_of_mul_lt_mul_right (Nat.lt_of_le_of_lt (Nat.le_add_right _ i) h)
  · intro h
    calc j*count+i < j*count+count := by omega
      _ = (j+1)*count := (Nat.succ_mul j count).symm
      _ ≤ n*count := Nat.mul_le_mul_right _ h

theorem length_lane (hi : i < count) (h : xs.length = n*count) : (lane count i xs).length = n := by
  rw [lane,List.length_map,List.length_range,h,Nat.mul_div_cancel _ (by omega)]

theorem getElem?_lane (hi : i < count) (h : xs.length = n*count) (j : ℕ) : (lane count i xs)[j]? = xs[j*count+i]? := by
  by_cases hj : j < n
  · have hlt : j*count+i < xs.length := by rw [h]; exact (lane_index_lt hi).mpr hj
    have hn : xs.length/count = n := by rw [h,Nat.mul_div_cancel _ (by omega)]
    simp [lane,hn,hj,hlt]
  · rw [List.getElem?_eq_none (by rw [length_lane hi h]; omega),List.getElem?_eq_none ?_]
    rw [h]
    exact not_lt.mp fun hlt => hj ((lane_index_lt hi).mp hlt)

theorem lane_replicate (hi : i < count) (n : ℕ) (x : α) :
    lane count i (List.replicate (n*count) x) = List.replicate n x := by
  apply List.ext_getElem?
  intro j
  rw [getElem?_lane hi List.length_replicate,List.getElem?_replicate,List.getElem?_replicate]
  exact if_congr (lane_index_lt hi) rfl rfl

theorem lane_append (hi : i < count) (hx : xs.length = n*count) (hy : ys.length = m*count) :
    lane count i (xs ++ ys) = lane count i xs ++ lane count i ys := by
  apply List.ext_getElem?
  intro j
  have hxy : (xs ++ ys).length = (n+m)*count := by rw [List.length_append,hx,hy,Nat.add_mul]
  rw [getElem?_lane hi hxy,List.getElem?_append,List.getElem?_append,length_lane hi hx,hx]
  by_cases hj : j < n
  · rw [if_pos hj,if_pos ((lane_index_lt hi).mpr hj),getElem?_lane hi hx]
  · have hsub : j*count+i-n*count = (j-n)*count+i := by
      have hle : n*count ≤ j*count := Nat.mul_le_mul_right _ (not_lt.mp hj)
      rw [Nat.sub_mul]
      omega
    rw [if_neg hj,if_neg (hj ∘ (lane_index_lt hi).mp),getElem?_lane hi hy,hsub]

theorem lane_take (hi : i < count) (h : xs.length = n*count) (m : ℕ) :
    lane count i (xs.take (m*count)) = (lane count i xs).take m := by
  apply List.ext_getElem?
  intro j
  have hlen : (xs.take (m*count)).length = min m n*count := by rw [List.length_take,h,Nat.mul_min_mul_right]
  rw [getElem?_lane hi hlen,List.getElem?_take,List.getElem?_take,getElem?_lane hi h]
  exact if_congr (lane_index_lt hi) rfl rfl

theorem lane_drop (hi : i < count) (h : xs.length = n*count) (m : ℕ) :
    lane count i (xs.drop (m*count)) = (lane count i xs).drop m := by
  apply List.ext_getElem?
  intro j
  have hlen : (xs.drop (m*count)).length = (n-m)*count := by rw [List.length_drop,h,Nat.sub_mul]
  rw [getElem?_lane hi hlen,List.getElem?_drop,List.getElem?_drop,getElem?_lane hi h,Nat.add_mul,Nat.add_assoc]

theorem lane_slice (hi : i < count) (h : xs.length = n*count) (pos len : ℕ) :
    lane count i (slice xs (pos*count) (len*count)) = slice (lane count i xs) pos len := by
  have hdrop : (xs.drop (pos*count)).length = (n-pos)*count := by rw [List.length_drop,h,Nat.sub_mul]
  rw [slice,lane_take hi hdrop,lane_drop hi h]
  rfl

theorem lane_flatMap {β : Type v} (hi : i < count) {frame : β → List α} (h : ∀ b, (frame b).length = count)
    (l : List β) : lane count i (l.flatMap frame) = l.map fun b => (frame b).getD i 0 := by
  induction l with
  | nil => simp [lane]
  | cons b l ih =>
    have hone : (frame b).length = 1*count := by rw [h,Nat.one_mul]
    have hrest : (l.flatMap frame).length = l.length*count := by
      rw [List.length_flatMap,List.map_congr_left fun b _ => h b]
      simp
    have hfirst : lane count i (frame b) = [(frame b).getD i 0] := by
      have hpos : 0 < count := by omega
      simp [lane,h,Nat.div_self hpos]
    rw [List.flatMap_cons,lane_append hi hone hrest,hfirst,ih]
    rfl

def scatterLanes (count : ℕ) (dst xs : List α) : ℕ → List α
  | 0 => dst
  | k+1 => scatter count (scatterLanes count dst xs k) k (lane count k xs)

@[simp] theorem length_scatterLanes (count : ℕ) (dst xs : List α) (k : ℕ) :
    (scatterLanes count dst xs k).length = dst.length := by
  induction k with
  | zero => rfl
  | succ k ih => rw [scatterLanes,length_scatter,ih]

theorem getElem?_scatterLanes {dst : List α} (hx : xs.length = n*count) (hfit : xs.length ≤ dst.length) {k : ℕ}
    (hk : k ≤ count) (j : ℕ) :
    (scatterLanes count dst xs k)[j]? = if j < xs.length ∧ j%count < k then xs[j]? else dst[j]? := by
  induction k with
  | zero => simp [scatterLanes]
  | succ k ih =>
    have hlane := length_lane (show k < count by omega) hx
    rw [scatterLanes]
    by_cases hj : j < xs.length ∧ j%count = k
    · obtain ⟨hlt,rfl⟩ := hj
      have hsplit : j%count+j/count*count = j := by rw [Nat.add_comm]; exact Nat.div_add_mod' j count
      have hdiv : j/count < n := Nat.div_lt_of_lt_mul (by rw [Nat.mul_comm,← hx]; exact hlt)
      have hcell : (scatter count (scatterLanes count dst xs (j%count)) (j%count) (lane count (j%count) xs))[j%count+j/count*count]? =
          (lane count (j%count) xs)[j/count]? :=
        getElem?_scatter (by omega) (by rw [hlane]; exact hdiv) (by rw [hsplit,length_scatterLanes]; omega)
      rw [hsplit,getElem?_lane (by omega) hx,Nat.div_add_mod' j count] at hcell
      rw [hcell,if_pos ⟨hlt,Nat.lt_succ_self _⟩]
    · rw [getElem?_scatter_other ?_,ih (by omega)]
      · exact if_congr (by omega) rfl rfl
      · rintro l hl rfl
        rw [hlane] at hl
        have hlt : k+l*count < n*count := by
          rw [Nat.add_comm]
          exact (lane_index_lt (by omega)).mpr hl
        refine hj ⟨by rwa [hx],?_⟩
        rw [Nat.add_mul_mod_self_right,Nat.mod_eq_of_lt (by omega)]

theorem scatterLanes_all {dst : List α} (hx : xs.length = n*count) (hfit : xs.length ≤ dst.length) :
    scatterLanes count dst xs count = splice dst 0 xs := by
  apply List.ext_getElem?
  intro j
  rw [getElem?_scatterLanes hx hfit le_rfl,splice,List.take_zero,List.nil_append,Nat.zero_add,List.getElem?_append]
  by_cases hj : j < xs.length
  · have hpos : 0 < count := Nat.pos_of_mul_pos_left (hx ▸ (Nat.zero_le j).trans_lt hj)
    rw [if_pos ⟨hj,Nat.mod_lt _ hpos⟩,if_pos hj]
  · rw [if_neg fun h => hj h.1,if_neg hj,List.getElem?_drop,Nat.add_sub_cancel' (not_lt.mp hj)]

end Lanes

theorem getElem?_slice (xs : List α) (pos len j : ℕ) : (slice xs pos len)[j]? = if j < len then xs[pos+j]? else none := by
  rw [slice,List.getElem?_take,List.getElem?_drop]

theorem slice_replicate {pos len n : ℕ} (h : pos+len ≤ n) (x : α) :
    slice (List.replicate n x) pos len = List.replicate len x := by
  rw [slice,List.drop_replicate,List.take_replicate,Nat.min_eq_left (by omega)]

theorem slice_slice (xs : List α) {p n pos len : ℕ} (h : pos+len ≤ n) : slice (slice xs p n) pos len = slice xs (p+pos) len := by
  apply List.ext_getElem?
  intro j
  rw [getElem?_slice,getElem?_slice,getElem?_slice]
  by_cases hj : j < len
  · rw [if_pos hj,if_pos hj,if_pos (by omega),Nat.add_assoc]
  · rw [if_neg hj,if_neg hj]

theorem take_splice_zero (dst : List α) {xs : List α} (h : xs.length ≤ dst.length) : (splice dst 0 xs).take xs.length = xs := by
  have htake := take_splice dst (show 0+xs.length ≤ dst.length by omega)
  rwa [Nat.zero_add,List.take_zero,List.nil_append] at htake

theorem drop_splice_zero (dst : List α) {xs : List α} (h : xs.length ≤ dst.length) :
    (splice dst 0 xs).drop xs.length = dst.drop xs.length := by
  have hdrop := drop_splice dst (show 0+xs.length ≤ dst.length by omega)
  rwa [Nat.zero_add] at hdrop

theorem getElem?_splice_other {dst : List α} {pos : ℕ} {xs : List α} (h : pos+xs.length ≤ dst.length) {i : ℕ}
    (hi : i < pos ∨ pos+xs.length ≤ i) : (splice dst pos xs)[i]? = dst[i]? := by
  have htake : (dst.take pos).length = pos := by rw [List.length_take]; omega
  rw [splice,List.append_assoc,List.getElem?_append,htake]
  rcases hi with hlt | hge
  · rw [if_pos hlt,List.getElem?_take,if_pos hlt]
  · have hsum : pos+xs.length+(i-pos-xs.length) = i := by omega
    rw [if_neg (by omega),List.getElem?_append,if_neg (by omega),List.getElem?_drop,hsum]

theorem slice_splice_behind (dst : List α) {pos len : ℕ} {xs : List α} (h : pos+len+xs.length ≤ dst.length) :
    slice (splice dst (pos+len) xs) pos (len+xs.length) = slice dst pos len ++ xs := by
  have hlen := length_slice dst (show pos+len ≤ dst.length by omega)
  apply List.ext_getElem?
  intro j
  rw [getElem?_slice,List.getElem?_append,hlen,getElem?_slice]
  by_cases hj : j < len
  · rw [if_pos (by omega),if_pos hj,if_pos hj,getElem?_splice_other h (by omega)]
  · rw [if_neg hj]
    have htake : (dst.take (pos+len)).length = pos+len := by rw [List.length_take]; omega
    by_cases hx : j < len+xs.length
    · have hsub : pos+j-(pos+len) = j-len := by omega
      rw [if_pos hx,splice,List.append_assoc,List.getElem?_append_right (by omega),htake,hsub,
        List.getElem?_append_left (by omega)]
    · rw [if_neg hx,List.getElem?_eq_none (by omega)]

variable {ε : Type v}

def put (xs : List α) (i : ℕ) (x : α) : Program ε (List α) :=
  .ofExcept <| if i < xs.length then .ok (xs.set i x) else .error .outOfBounds

theorem put_returns {xs : List α} {i : ℕ} (x : α) (h : i < xs.length) :
    (put xs i x : Program ε (List α)).Returns (xs.set i x) :=
  ⟨0,by simp only [put,Program.ofExcept,h,if_true]⟩

theorem splice_concat (dst : List α) {pos : ℕ} (xs : List α) (x : α) (h : pos+xs.length < dst.length) :
    (splice dst pos xs).set (pos+xs.length) x = splice dst pos (xs ++ [x]) := by
  have hfit : pos+xs.length ≤ dst.length := by omega
  have hset : (splice dst pos xs).set (pos+xs.length) x = splice (splice dst pos xs) (pos+xs.length) [x] := by
    rw [List.set_eq_take_append_cons_drop,if_pos (by rwa [length_splice _ hfit])]
    simp [splice]
  rw [hset,splice_append _ _ hfit]

/-- `for(j = 0; j < n; j++) dst[pos + j] = value(j)`. -/
theorem storeLoop_returns {n pos : ℕ} {dst xs : List α} (hlen : xs.length = n) (hfit : pos+n ≤ dst.length)
    {value : ℕ → List α → Program ε α}
    (hvalue : ∀ j (hj : j < xs.length), (value j (splice dst pos (xs.take j))).Returns xs[j]) :
    (Program.forLoop n (fun j m => do put m (pos+j) (← value j m)) dst).Returns (splice dst pos xs) := by
  have hloop : (Program.forLoop n (fun j m => do put m (pos+j) (← value j m)) dst).Ends fun m => m = splice dst pos (xs.take n) := by
    refine .forLoop (fun j m => m = splice dst pos (xs.take j)) (by rw [List.take_zero,splice_nil]) ?_
    rintro j m hj rfl
    have hj' : j < xs.length := by omega
    have htake : (xs.take j).length = j := by rw [List.length_take]; omega
    have hroom : pos+(xs.take j).length ≤ dst.length := by omega
    have hcell : (splice dst pos (xs.take j)).set (pos+(xs.take j).length) xs[j] = splice dst pos (xs.take j ++ [xs[j]]) :=
      splice_concat dst _ _ (by omega)
    rw [htake,List.take_concat_get' _ _ hj'] at hcell
    refine ((hvalue j hj').bind (put_returns _ ?_)).ends hcell
    rw [length_splice _ hroom]
    omega
  rw [← hlen,List.take_length] at hloop
  exact hlen ▸ hloop.returns

/-- `for(i = 0; i < n; i++) dst[i] = x`. -/
theorem fillLoop_returns (dst : List α) (x : α) :
    (Program.forLoop dst.length (fun i m => put m i x) dst : Program ε (List α)).Returns (List.replicate dst.length x) := by
  have hloop : (Program.forLoop dst.length (fun i m => put m i x) dst : Program ε (List α)).Ends fun m =>
      m = splice dst 0 (List.replicate dst.length x) := by
    refine .forLoop (fun i m => m = splice dst 0 (List.replicate i x)) (splice_nil dst 0).symm ?_
    rintro i m hi rfl
    have hlen : (List.replicate i x).length = i := List.length_replicate
    have hroom : 0+(List.replicate i x).length < dst.length := by omega
    have hcell := splice_concat dst (List.replicate i x) x hroom
    rw [hlen,Nat.zero_add,← List.replicate_succ'] at hcell
    refine (put_returns _ ?_).ends hcell
    rwa [length_splice _ hroom.le]
  rw [splice_all dst List.length_replicate] at hloop
  exact hloop.returns

/-- `for(j = 0; j < n; j++) mem[p + j] = mem[p + j + d]`. -/
theorem moveLoop_returns {n p d : ℕ} {mem : List α} (h : p+d+n ≤ mem.length) :
    (Program.forLoop n (fun j m => do put m (p+j) (← load m (p+j+d))) mem : Program ε (List α)).Returns
      (splice mem p (slice mem (p+d) n)) := by
  have hlen := length_slice mem h
  refine storeLoop_returns hlen (by omega) fun j hj => ?_
  have htake : ((slice mem (p+d) n).take j).length = j := by rw [List.length_take]; omega
  refine load_returns ?_
  -- what is read has not been overwritten yet
  have hsame : p+j+d = p+d+j := by omega
  rw [getElem?_splice_other (by omega) (by omega),hsame,← List.getElem?_eq_getElem hj,getElem?_slice,if_pos (by omega)]

end Buffer
end AudioOutput
