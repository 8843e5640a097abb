import Mathlib.Data.List.Rotate

/-!
# Ring buffers that are always full

A fixed number of cells is written in turn. Read from the cell that is written next,
they are the last entries of what has been written, the initial contents counted as
written before.
-/

namespace AudioOutput

universe u
variable {α : Type u}

structure RingBuffer (α : Type u) where
  cells : List α
  next : ℕ
  inside : next < cells.length

namespace RingBuffer

theorem inside_replicate {n : ℕ} (hn : 0 < n) (x : α) : 0 < (List.replicate n x).length := by
  simpa using hn

def fill (n : ℕ) (hn : 0 < n) (x : α) : RingBuffer α := ⟨List.replicate n x,0,inside_replicate hn x⟩

def push (b : RingBuffer α) (x : α) : RingBuffer α where
  cells := b.cells.set b.next x
  next := (b.next+1)%b.cells.length
  inside := by
    rw [List.length_set]
    exact Nat.mod_lt _ (Nat.zero_lt_of_lt b.inside)

def contents (b : RingBuffer α) : List α := b.cells.rotate b.next

theorem contents_perm (b : RingBuffer α) : b.contents.Perm b.cells := List.rotate_perm _ _

@[simp] theorem contents_fill (n : ℕ) (hn : 0 < n) (x : α) : (fill n hn x).contents = List.replicate n x := by
  simp [contents,fill]

theorem contents_push (b : RingBuffer α) (x : α) : (b.push x).contents = b.contents.tail ++ [x] := by
  have hin := b.inside
  have htake : (b.cells.take b.next).length = b.next := List.length_take_of_le hin.le
  have hset : b.cells.set b.next x = b.cells.take b.next ++ x :: b.cells.drop (b.next+1) := by
    rw [List.set_eq_take_append_cons_drop,if_pos hin]
  have hold : b.contents = b.cells[b.next] :: (b.cells.drop (b.next+1) ++ b.cells.take b.next) := by
    rw [contents,List.rotate_eq_drop_append_take hin.le,List.drop_eq_getElem_cons hin,List.cons_append]
  have hwritten : (b.cells.set b.next x).rotate b.next = x :: (b.cells.drop (b.next+1) ++ b.cells.take b.next) := by
    rw [List.rotate_eq_drop_append_take (by simpa using hin.le),hset,List.drop_left' htake,List.take_left' htake,
      List.cons_append]
  have hwrap : (b.push x).contents = ((b.cells.set b.next x).rotate b.next).rotate 1 := by
    have hmod := List.rotate_mod (b.cells.set b.next x) (b.next+1)
    rw [List.length_set] at hmod
    rw [List.rotate_rotate]
    exact hmod
  rw [hwrap,hwritten,hold,List.rotate_cons_succ,List.rotate_zero,List.tail_cons]

/-- What has been written, read back. -/
theorem contents_foldl_push (n : ℕ) (hn : 0 < n) (x : α) (ys : List α) :
    (ys.foldl push (fill n hn x)).contents = (List.replicate n x ++ ys).drop ys.length := by
  induction ys using List.reverseRecOn with
  | nil => simp
  | append_singleton ys y ih =>
    have hle : ys.length+1 ≤ (List.replicate n x ++ ys).length := by
      rw [List.length_append,List.length_replicate]
      omega
    rw [List.foldl_concat,contents_push,ih,List.tail_drop,List.length_append,List.length_singleton,← List.append_assoc,
      List.drop_append_of_le_length hle]

end RingBuffer
end AudioOutput
