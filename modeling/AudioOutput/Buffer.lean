import Mathlib.Data.Stream.Init
import Mathlib.Tactic

/-!
# Arrays of samples and streams cut into blocks

An array is a list of fixed length. A copy into an array replaces a region of
it, and a stream given block by block is read back through its prefixes.
-/

namespace AudioOutput
namespace Buffer

universe u
variable {α : Type u}

def slice (xs : List α) (pos len : ℕ) : List α := (xs.drop pos).take len

def splice (dst : List α) (pos : ℕ) (xs : List α) : List α :=
  dst.take pos ++ xs ++ dst.drop (pos+xs.length)

theorem length_slice (xs : List α) {pos len : ℕ} (h : pos+len ≤ xs.length) :
    (slice xs pos len).length = len := by
  simp only [slice,List.length_take,List.length_drop]
  omega

theorem slice_all (xs : List α) : slice xs 0 xs.length = xs := by simp [slice]

theorem slice_append_drop (xs : List α) (pos len : ℕ) :
    slice xs pos len ++ xs.drop (pos+len) = xs.drop pos := by
  rw [← List.drop_drop]
  exact List.take_append_drop len (xs.drop pos)

@[simp] theorem length_splice (dst : List α) {pos : ℕ} {xs : List α}
    (h : pos+xs.length ≤ dst.length) : (splice dst pos xs).length = dst.length := by
  simp only [splice,List.length_append,List.length_take,List.length_drop]
  omega

theorem take_splice (dst : List α) {pos : ℕ} {xs : List α} (h : pos+xs.length ≤ dst.length) :
    (splice dst pos xs).take (pos+xs.length) = dst.take pos ++ xs := by
  have hlen : (dst.take pos ++ xs).length = pos+xs.length := by
    simp only [List.length_append,List.length_take]
    omega
  exact List.take_left' hlen

theorem drop_splice (dst : List α) {pos : ℕ} {xs : List α} (h : pos+xs.length ≤ dst.length) :
    (splice dst pos xs).drop (pos+xs.length) = dst.drop (pos+xs.length) := by
  have hlen : (dst.take pos ++ xs).length = pos+xs.length := by
    simp only [List.length_append,List.length_take]
    omega
  exact List.drop_left' hlen

theorem splice_all (dst : List α) {xs : List α} (h : xs.length = dst.length) : splice dst 0 xs = xs := by
  simp [splice,h]

theorem splice_nil (dst : List α) (pos : ℕ) : splice dst pos [] = dst := by
  simp [splice]

theorem splice_append (dst : List α) {pos : ℕ} {xs : List α} (ys : List α) (h : pos+xs.length ≤ dst.length) :
    splice (splice dst pos xs) (pos+xs.length) ys = splice dst pos (xs ++ ys) := by
  have hdrop : (splice dst pos xs).drop (pos+xs.length+ys.length) = dst.drop (pos+xs.length+ys.length) := by
    rw [← List.drop_drop,drop_splice dst h,List.drop_drop]
  rw [splice,take_splice dst h,hdrop,splice,List.length_append,List.append_assoc,List.append_assoc,List.append_assoc,
    List.append_assoc,Nat.add_assoc]

theorem slice_splice (dst : List α) {pos : ℕ} {xs : List α} (h : pos+xs.length ≤ dst.length) :
    slice (splice dst pos xs) pos xs.length = xs := by
  have hlen : (dst.take pos).length = pos := by simp; omega
  rw [slice,splice,List.append_assoc,List.drop_left' hlen,List.take_left' rfl]

theorem modify_splice (dst : List α) {pos : ℕ} (xs : List α) (i : ℕ) (f : α → α) (h : pos ≤ dst.length)
    (hi : i < xs.length) : (splice dst pos xs).modify (pos+i) f = splice dst pos (xs.modify i f) := by
  apply List.ext_getElem?
  intro j
  have hlen : (dst.take pos).length = pos := by simp; omega
  simp only [splice,List.append_assoc,List.getElem?_modify,List.getElem?_append,hlen,List.length_modify]
  by_cases hj : j < pos
  · simp [hj,show pos+i ≠ j by omega]
  · by_cases hij : pos+i = j
    · subst hij
      simp [hi]
    · simp only [hj,if_false,hij]
      by_cases hjx : j-pos < xs.length <;> simp [hjx,show i ≠ j-pos by omega]

end Buffer

namespace BlockStream

universe u
variable {α : Type u}

theorem eq_take_of_prefix {s : Stream' α} {n : ℕ} {xs : List α} (h : xs <+: s.take n) :
    xs = s.take xs.length := by
  have hle : xs.length ≤ n := by simpa using h.length_le
  calc
    xs = (s.take n).take xs.length := List.prefix_iff_eq_take.mp h
    _ = s.take xs.length := by rw [Stream'.take_take,Nat.min_eq_right hle]

theorem slice_take (s : Stream' α) {pos len n : ℕ} (h : pos+len ≤ n) :
    Buffer.slice (s.take n) pos len = (s.drop pos).take len := by
  have hlen : (Buffer.slice (s.take n) pos len).length = len := Buffer.length_slice _ (by simpa using h)
  apply List.ext_getElem (by simpa using hlen)
  intro i hi _
  simp [Buffer.slice]

theorem drop_take (s : Stream' α) (n m : ℕ) : (s.take n).drop m = (s.drop m).take (n-m) := by
  apply List.ext_getElem (by simp)
  intro i hi _
  simp

variable [Zero α]

/-- The stream whose blocks of `len` samples are the given ones. -/
def concat (len : ℕ) (blocks : ℕ → List α) : Stream' α :=
  fun i => (blocks (i/len)).getD (i%len) 0

theorem drop_concat {len : ℕ} (blocks : ℕ → List α) (hlen : 0 < len) (n : ℕ) :
    (concat len blocks).drop (n*len) = concat len fun k => blocks (n+k) := by
  funext i
  change concat len blocks (i+n*len) = _
  simp [concat,Nat.add_mul_div_right _ _ hlen,Nat.add_comm]

theorem take_concat_one {len : ℕ} (blocks : ℕ → List α) (h : (blocks 0).length = len) :
    (concat len blocks).take len = blocks 0 := by
  apply List.ext_getElem (by simp [h])
  intro i hi _
  have hlt : i < len := by simpa using hi
  rw [Stream'.take_get]
  change concat len blocks i = _
  simp [concat,Nat.div_eq_of_lt hlt,Nat.mod_eq_of_lt hlt,h,hlt]

/-- The first `n` blocks of the stream, one after the other. -/
theorem take_concat {len : ℕ} (blocks : ℕ → List α) (hlen : 0 < len)
    (hblocks : ∀ k, (blocks k).length = len) (n : ℕ) :
    (concat len blocks).take (n*len) = (List.range n).flatMap blocks := by
  induction n with
  | zero => simp
  | succ n ih =>
    have hlast := take_concat_one (fun k => blocks (n+k)) (hblocks n)
    rw [Nat.succ_mul,Stream'.take_add,ih,drop_concat blocks hlen,hlast,List.range_succ]
    simp

end BlockStream
end AudioOutput
