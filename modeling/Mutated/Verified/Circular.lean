import Mathlib.Data.List.Nodup
import Mathlib.Data.Nat.ModEq
import Mathlib.Tactic.Common

/-!
# Blocks and circular windows of a memory

A memory is a function `Nat → α`.  A **block** is a run of consecutive
cells; a **window** is a run of cells of a circular array of `cap` cells,
so that it continues at cell `0` after cell `cap - 1`.  `blit` copies a list
over a block and `scatter` copies one over a window, in at most two blocks.

Everything about a ring reduces to two facts proved here: a window is at
most two blocks (`window_eq_block`, `window_eq_append`), and a `scatter`
changes exactly the cells of its own window (`scatter_window`,
`window_scatter_of_disjoint`).

## Main results

* `window_eq_block`, `window_eq_append` — a window that stays below the end
  of the array is one block, any other one is two.
* `window_add` — windows concatenate.
* `scatter_window` — what was scattered is read back.
* `window_scatter_of_disjoint` — a window that ends where the scattered one
  starts is not changed by it.
-/

namespace Mutated.Verified.Circular

variable {α β : Type}

/-! ## Indices -/

/-- Below twice the capacity, reducing an index is at most one subtraction. -/
theorem wrap_cases {a cap : Nat} (h : a < 2 * cap) :
    (a < cap ∧ a % cap = a) ∨ (cap ≤ a ∧ a % cap = a - cap) := by
  rcases Nat.lt_or_ge a cap with hlt | hge
  · exact .inl ⟨hlt, Nat.mod_eq_of_lt hlt⟩
  · refine .inr ⟨hge, ?_⟩
    rw [Nat.mod_eq_sub_mod hge, Nat.mod_eq_of_lt (by omega)]

/-- Different offsets below the capacity name different cells. -/
theorem add_mod_ne {s i j cap : Nat} (hi : i < cap) (hj : j < cap)
    (hne : i ≠ j) : (s + i) % cap ≠ (s + j) % cap := by
  intro heq
  have hmod : i ≡ j [MOD cap] := Nat.ModEq.add_left_cancel' s heq
  have hij : i % cap = j % cap := hmod
  rw [Nat.mod_eq_of_lt hi, Nat.mod_eq_of_lt hj] at hij
  exact hne hij

/-- Different indices less than the capacity apart name different cells. -/
theorem mod_ne {i j cap : Nat} (hlt : i < j) (hj : j < i + cap) :
    i % cap ≠ j % cap := by
  have hne := add_mod_ne (s := i) (show 0 < cap by omega)
    (show j - i < cap by omega) (by omega)
  rwa [Nat.add_zero, Nat.add_sub_cancel' (by omega)] at hne

/-! ## Blocks -/

/-- The `n` consecutive cells from `p` on. -/
def block (mem : Nat → α) (p n : Nat) : List α :=
  (List.range n).map fun i => mem (p + i)

/-- Copy `xs` over the cells from `p` on. -/
def blit (mem : Nat → α) (p : Nat) (xs : List α) : Nat → α := fun j =>
  if p ≤ j then xs[j - p]?.getD (mem j) else mem j

@[simp] theorem length_block (mem : Nat → α) (p n : Nat) :
    (block mem p n).length = n := by
  simp [block]

@[simp] theorem blit_nil (mem : Nat → α) (p : Nat) : blit mem p [] = mem := by
  funext j
  simp [blit]

theorem blit_singleton (mem : Nat → α) (p : Nat) (x : α) (j : Nat) :
    blit mem p [x] j = if j = p then x else mem j := by
  unfold blit
  by_cases hle : p ≤ j
  · rw [if_pos hle]
    by_cases heq : j = p
    · simp [heq]
    · have hout : [x][j - p]? = none :=
        List.getElem?_eq_none (by simp only [List.length_singleton]; omega)
      rw [hout, if_neg heq]
      rfl
  · rw [if_neg hle, if_neg (by omega)]

/-- A block that was copied over is read back. -/
theorem block_blit (mem : Nat → α) (p : Nat) (xs : List α) :
    block (blit mem p xs) p xs.length = xs := by
  apply List.ext_getElem
  · simp
  · intro i hi hi'
    simp [block, blit, List.getElem?_eq_getElem hi']

theorem take_block {mem : Nat → α} {p n k : Nat} (h : k ≤ n) :
    (block mem p n).take k = block mem p k := by
  rw [block, block, ← List.map_take, List.take_range, Nat.min_eq_left h]

/-- Cells before the copy are not touched. -/
theorem block_blit_before {mem : Nat → α} {p q n : Nat} {xs : List α}
    (h : q + n ≤ p) : block (blit mem p xs) q n = block mem q n := by
  apply List.map_congr_left
  intro i hi
  have hin : i < n := List.mem_range.mp hi
  exact if_neg (by omega)

/-! ## Windows -/

/-- The `n` cells from `start` on, in a circular array of `cap` cells. -/
def window (cap : Nat) (mem : Nat → α) (start n : Nat) : List α :=
  (List.range n).map fun i => mem ((start + i) % cap)

@[simp] theorem length_window (cap : Nat) (mem : Nat → α) (start n : Nat) :
    (window cap mem start n).length = n := by
  simp [window]

@[simp] theorem window_zero (cap : Nat) (mem : Nat → α) (start : Nat) :
    window cap mem start 0 = [] := rfl

theorem window_mod (cap : Nat) (mem : Nat → α) (start n : Nat) :
    window cap mem (start % cap) n = window cap mem start n := by
  simp [window, Nat.mod_add_mod]

theorem window_congr {cap : Nat} {mem mem' : Nat → α} {start n : Nat}
    (h : ∀ i, i < n → mem ((start + i) % cap) = mem' ((start + i) % cap)) :
    window cap mem start n = window cap mem' start n := by
  apply List.map_congr_left
  intro i hi
  exact h i (List.mem_range.mp hi)

/-- Windows concatenate. -/
theorem window_add (cap : Nat) (mem : Nat → α) (start m n : Nat) :
    window cap mem start (m + n) =
      window cap mem start m ++ window cap mem (start + m) n := by
  simp [window, List.range_add, Nat.add_assoc, Function.comp_def]

theorem window_succ (cap : Nat) (mem : Nat → α) (start n : Nat) :
    window cap mem start (n + 1) =
      mem (start % cap) :: window cap mem (start + 1) n := by
  rw [Nat.add_comm n 1, window_add]
  simp [window]

theorem take_window {cap : Nat} {mem : Nat → α} {start n k : Nat}
    (h : k ≤ n) : (window cap mem start n).take k = window cap mem start k := by
  obtain ⟨m, rfl⟩ := Nat.exists_eq_add_of_le h
  rw [window_add, List.take_left' (length_window ..)]

theorem drop_window {cap : Nat} {mem : Nat → α} {start n k : Nat}
    (h : k ≤ n) :
    (window cap mem start n).drop k = window cap mem (start + k) (n - k) := by
  obtain ⟨m, rfl⟩ := Nat.exists_eq_add_of_le h
  rw [window_add, List.drop_left' (length_window ..), Nat.add_sub_cancel_left]

/-- A window that stays below the end of the array is one block. -/
theorem window_eq_block {cap : Nat} (mem : Nat → α) {start n : Nat}
    (h : start + n ≤ cap) : window cap mem start n = block mem start n := by
  apply List.map_congr_left
  intro i hi
  have hin : i < n := List.mem_range.mp hi
  rw [Nat.mod_eq_of_lt (by omega)]

/-- A window that reaches the end of the array is two blocks. -/
theorem window_eq_append {cap : Nat} {mem : Nat → α} {start n : Nat}
    (hs : start < cap) (hn : n ≤ cap) (h : cap ≤ start + n) :
    window cap mem start n =
      block mem start (cap - start) ++ block mem 0 (n - (cap - start)) := by
  have hsplit : n = (cap - start) + (n - (cap - start)) := by omega
  have hstart : start + (cap - start) = cap := by omega
  have hhead : window cap mem start (cap - start) =
      block mem start (cap - start) := window_eq_block mem (by omega)
  have htail : window cap mem cap (n - (cap - start)) =
      block mem 0 (n - (cap - start)) := by
    rw [← window_mod, Nat.mod_self]
    exact window_eq_block mem (by omega)
  calc window cap mem start n
      = window cap mem start ((cap - start) + (n - (cap - start))) := by
        rw [← hsplit]
    _ = _ := by rw [window_add, hstart, hhead, htail]

/-! ## Copying over a window -/

/-- Copy `xs` over the window from `p` on, in at most two blocks. -/
def scatter (cap : Nat) (mem : Nat → α) (p : Nat) (xs : List α) : Nat → α :=
  blit (blit mem p (xs.take (cap - p))) 0 (xs.drop (cap - p))

theorem scatter_of_le {cap : Nat} {mem : Nat → α} {p : Nat} {xs : List α}
    (h : p + xs.length ≤ cap) : scatter cap mem p xs = blit mem p xs := by
  have hle : xs.length ≤ cap - p := by omega
  rw [scatter, List.take_of_length_le hle, List.drop_eq_nil_of_le hle, blit_nil]

/-- **What `scatter` does to each cell**: the cell `i` places after the start
gets the `i`-th item, as long as there is one. -/
theorem scatter_apply {cap : Nat} (mem : Nat → α) {p i : Nat} {xs : List α}
    (hp : p < cap) (hxs : xs.length ≤ cap) (hi : i < cap) :
    scatter cap mem p xs ((p + i) % cap) =
      xs[i]?.getD (mem ((p + i) % cap)) := by
  rcases wrap_cases (show p + i < 2 * cap by omega) with
    ⟨hlt, hmod⟩ | ⟨hge, hmod⟩
  · rw [hmod]
    have hdrop : (xs.drop (cap - p))[p + i]? = none := by
      rw [List.getElem?_drop]
      exact List.getElem?_eq_none (by omega)
    have htake : (xs.take (cap - p))[i]? = xs[i]? :=
      List.getElem?_take_of_lt (by omega)
    simp [scatter, blit, hdrop, htake]
  · rw [hmod]
    have hidx : cap - p + (p + i - cap) = i := by omega
    have hbelow : ¬ p ≤ p + i - cap := by omega
    simp [scatter, blit, List.getElem?_drop, hidx, hbelow]

/-- What was scattered is read back. -/
theorem scatter_window {cap : Nat} (mem : Nat → α) {p : Nat} {xs : List α}
    (hp : p < cap) (hxs : xs.length ≤ cap) :
    window cap (scatter cap mem p xs) p xs.length = xs := by
  apply List.ext_getElem
  · simp
  · intro i hi hi'
    have happly := scatter_apply mem hp hxs (show i < cap by omega)
    simpa [window, List.getElem?_eq_getElem hi'] using happly

/-- A window of `n` cells that ends where the scattered one starts keeps its
contents, as long as the two fit in the array together. -/
theorem window_scatter_of_disjoint {cap : Nat} {mem : Nat → α}
    {head n : Nat} {xs : List α} (hcap : 0 < cap) (hfit : n + xs.length ≤ cap) :
    window cap (scatter cap mem ((head + n) % cap) xs) head n =
      window cap mem head n := by
  apply window_congr
  intro i hi
  have hcell : (head + i) % cap =
      ((head + n) % cap + (cap - n + i)) % cap := by
    rw [Nat.mod_add_mod,
      show head + n + (cap - n + i) = head + i + cap by omega,
      Nat.add_mod_right]
  have hnone : xs[cap - n + i]? = none :=
    List.getElem?_eq_none (by omega)
  rw [hcell, scatter_apply mem (Nat.mod_lt _ hcap) (by omega) (by omega), hnone]
  rfl

/-- Writing one cell of a window sets one item of it. -/
theorem window_blit_singleton {cap : Nat} {mem : Nat → α} {start n k : Nat}
    (hn : n ≤ cap) (hk : k < n) (x : α) :
    window cap (blit mem ((start + k) % cap) [x]) start n =
      (window cap mem start n).set k x := by
  apply List.ext_getElem
  · simp
  · intro i hi hi'
    have hin : i < n := by simpa using hi
    have hne : i ≠ k → (start + i) % cap ≠ (start + k) % cap :=
      add_mod_ne (by omega) (by omega)
    by_cases heq : i = k
    · subst heq
      simp [window, blit_singleton]
    · have hkey := hne heq
      simp [window, blit_singleton, hkey, Ne.symm heq]

/-- The cells of a window, as indices. -/
def cells (cap start n : Nat) : List Nat :=
  (List.range n).map fun i => (start + i) % cap

@[simp] theorem length_cells (cap start n : Nat) :
    (cells cap start n).length = n := by
  simp [cells]

theorem map_cells (cap : Nat) (mem : Nat → α) (start n : Nat) :
    (cells cap start n).map mem = window cap mem start n := by
  simp [cells, window, Function.comp_def]

theorem cells_succ (cap start n : Nat) :
    cells cap start (n + 1) = start % cap :: cells cap (start + 1) n := by
  have h := window_succ cap (fun j => j) start n
  simpa [window, cells] using h

theorem cells_mod (cap start n : Nat) :
    cells cap (start % cap) n = cells cap start n := by
  simp [cells, Nat.mod_add_mod]

/-- The cells of a window no longer than the array are all different. -/
theorem nodup_cells {cap start n : Nat} (hn : n ≤ cap) :
    (cells cap start n).Nodup := by
  refine List.Nodup.map_on ?_ List.nodup_range
  intro i hi j hj heq
  have hi' : i < n := List.mem_range.mp hi
  have hj' : j < n := List.mem_range.mp hj
  by_contra hne
  exact add_mod_ne (by omega) (by omega) hne heq

end Mutated.Verified.Circular
