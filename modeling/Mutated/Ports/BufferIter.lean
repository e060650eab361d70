import Mutated.Ports.BufferFifo

/-!
# Range-for over the circular buffer

`begin()` and `end()` tell the two layouts of the ring apart by
`used_ == 0 or head_ < tail_`, and iterators are compared by position only.
In a full ring `head_ == tail_`, so `begin() == end()` and a range-for visits
nothing at all; in every other ring it visits each item once, oldest first.
Both facts are read off one equation, `visited_eq`, which every later loop
over a ring uses.
-/

namespace Mutated.Ports.Buffer

open Mutated.Verified.Circular

variable {T : Type} {BUFSZ : ℕ+}

/-! ## The walk from `begin()` to `end()` -/

/-- Walking up a straight stretch of the array. -/
theorem walk_straight (n : Nat) : ∀ (p fuel : Nat), n ≤ fuel →
    walk ⟨p + n, none⟩ fuel ⟨p, none⟩ = some (List.range' p n) := by
  induction n with
  | zero =>
      intro p fuel _
      cases fuel <;> simp [walk]
  | succ n ih =>
      intro p fuel hfuel
      obtain ⟨f, rfl⟩ : ∃ f, fuel = f + 1 := ⟨fuel - 1, by omega⟩
      have hne : (⟨p, none⟩ : Iter) ≠ ⟨p + (n + 1), none⟩ := by
        intro heq
        injection heq
        omega
      have hstep := ih (p + 1) f (by omega)
      rw [show p + 1 + n = p + (n + 1) by omega] at hstep
      rw [walk, if_neg hne]
      show (walk _ f ⟨p + 1, none⟩).map _ = _
      rw [hstep]
      simp [List.range'_succ]

/-- Walking around the end of the array. -/
theorem walk_around (n : Nat) : ∀ (p fuel : Nat), p < BUFSZ → n < BUFSZ →
    n ≤ fuel →
    walk ⟨(p + n) % BUFSZ, some (BUFSZ, 0)⟩ fuel ⟨p, some (BUFSZ, 0)⟩ =
      some (cells BUFSZ p n) := by
  induction n with
  | zero =>
      intro p fuel hp _ _
      cases fuel <;> simp [walk, cells, Nat.mod_eq_of_lt hp]
  | succ n ih =>
      intro p fuel hp hn hfuel
      obtain ⟨f, rfl⟩ : ∃ f, fuel = f + 1 := ⟨fuel - 1, by omega⟩
      have hne : (⟨p, some ((BUFSZ : Nat), 0)⟩ : Iter) ≠
          ⟨(p + (n + 1)) % BUFSZ, some (BUFSZ, 0)⟩ := by
        intro heq
        injection heq with hptr
        have hfar := add_mod_ne (s := p) BUFSZ.pos hn (by omega)
        rw [Nat.add_zero, Nat.mod_eq_of_lt hp] at hfar
        exact hfar hptr
      have hnext : (⟨p, some ((BUFSZ : Nat), 0)⟩ : Iter).next =
          ⟨(p + 1) % BUFSZ, some (BUFSZ, 0)⟩ := by
        simp only [Iter.next]
        by_cases hend : p + 1 = BUFSZ
        · rw [if_pos hend, hend, Nat.mod_self]
        · rw [if_neg hend, Nat.mod_eq_of_lt (by omega)]
      have hstep := ih ((p + 1) % BUFSZ) f (Nat.mod_lt _ BUFSZ.pos)
        (by omega) (by omega)
      rw [Nat.mod_add_mod, show p + 1 + n = p + (n + 1) by omega,
        cells_mod] at hstep
      rw [walk, if_neg hne, hnext, hstep, cells_succ, Nat.mod_eq_of_lt hp]
      rfl

/-- **The walk ends**, within one increment for each item, and visits every
occupied slot in order, unless the ring is full, when it visits none. -/
theorem walk_eq {b : Buffer T BUFSZ} (h : b.WF) {fuel : Nat}
    (hfuel : b.used ≤ fuel) :
    walk b.fin fuel b.begin =
      some (if b.used = BUFSZ then [] else b.slots) := by
  have hhead := h.head_lt
  have hused := h.used_le
  have hlay := h.layout
  have hcap := BUFSZ.pos
  by_cases hline : b.used = 0 ∨ b.head < b.tail
  · have hbelow : b.head + b.used < BUFSZ ∧ b.tail = b.head + b.used := by
      omega
    have hwalk := walk_straight b.used b.head fuel hfuel
    have hcells : b.slots = List.range' b.head b.used := by
      have hblock := window_eq_block id (Nat.le_of_lt hbelow.1)
      rw [← map_range'_eq_block, List.map_id] at hblock
      exact hblock
    rw [begin, fin, if_pos hline, if_pos hline, hbelow.2, hwalk, hcells,
      if_neg (by omega)]
  · rw [begin, fin, if_neg hline, if_neg hline]
    by_cases hfull : b.used = BUFSZ
    · have hmeet : b.tail = b.head := by omega
      rw [if_pos hfull, hmeet]
      cases fuel <;> simp [walk]
    · have hwalk := walk_around b.used b.head fuel hhead
        (show b.used < BUFSZ by omega) hfuel
      rw [if_neg hfull, h.tail_eq]
      exact hwalk

theorem visited_eq {b : Buffer T BUFSZ} (h : b.WF) :
    b.visited = if b.used = BUFSZ then [] else b.slots := by
  rw [visited, walk_eq h h.used_le, Option.getD_some]

/-- A range-for visits items only. -/
theorem buf_mem_of_visited {b : Buffer T BUFSZ} (h : b.WF) {p : Nat}
    (hp : p ∈ b.visited) : b.buf p ∈ b.toList := by
  rw [visited_eq h] at hp
  split at hp
  · exact absurd hp List.not_mem_nil
  · rw [← map_slots]
    exact List.mem_map_of_mem hp

/-! ## When a range-for sees every item -/

/-- A range-for over `b` ends, and visits `items()` different slots that hold
the items in FIFO order. -/
def VisitsAll (b : Buffer T BUFSZ) : Prop :=
  ∃ fuel ps, walk b.fin fuel b.begin = some ps ∧
    ps.length = b.items ∧ ps.Nodup ∧ ps.map b.buf = b.toList

theorem walk_mono {stop : Iter} {fuel : Nat} : ∀ {it : Iter} {ps : List Nat},
    walk stop fuel it = some ps → walk stop (fuel + 1) it = some ps := by
  induction fuel with
  | zero =>
      intro it ps h
      by_cases hstop : it = stop
      · simpa [walk, hstop] using h
      · simp [walk, hstop] at h
  | succ fuel ih =>
      intro it ps h
      rw [walk] at h ⊢
      by_cases hstop : it = stop
      · simpa [hstop] using h
      · rw [if_neg hstop] at h ⊢
        obtain ⟨qs, hqs, rfl⟩ := Option.map_eq_some_iff.mp h
        rw [ih hqs]
        rfl

theorem walk_le {stop it : Iter} {fuel fuel' : Nat} {ps : List Nat}
    (hle : fuel ≤ fuel') (h : walk stop fuel it = some ps) :
    walk stop fuel' it = some ps := by
  induction hle with
  | refl => exact h
  | step _ ih => exact walk_mono ih

theorem visitsAll_iff_of_wf {b : Buffer T BUFSZ} (h : b.WF) :
    VisitsAll b ↔ b.items < b.size := by
  have hused := h.used_le
  constructor
  · rintro ⟨fuel, ps, hwalk, hlen, -, -⟩
    have hlong := walk_le (Nat.le_add_right fuel b.used) hwalk
    rw [walk_eq h (Nat.le_add_left _ _)] at hlong
    by_contra hfull
    have hfull' : b.used = BUFSZ := by
      unfold items size at hfull
      omega
    rw [if_pos hfull', Option.some.injEq] at hlong
    subst hlong
    have hcap := BUFSZ.pos
    have hlen' : 0 = b.used := hlen
    omega
  · intro hroom
    have hnot : b.used ≠ BUFSZ := Nat.ne_of_lt hroom
    refine ⟨b.used, b.slots, ?_, length_cells .., nodup_cells hused,
      map_slots b⟩
    rw [walk_eq h (Nat.le_refl _), if_neg hnot]

/-- **Exactly when a range-for is complete**: after any calls from the empty
buffer it visits every item once, in FIFO order, if and only if the buffer is
not full. -/
theorem run_visitsAll_iff (mem : Nat → T) (ops : List (Op T)) :
    VisitsAll (run ops (init mem : Buffer T BUFSZ)) ↔
      (run ops (init mem : Buffer T BUFSZ)).items <
        (run ops (init mem : Buffer T BUFSZ)).size :=
  visitsAll_iff_of_wf (wf_run ops (init_wf mem))

/-- Five items queued in the buffer of `test_buffer`, which holds five: the
range-for visits none of them. -/
theorem not_visitsAll_full :
    ¬ VisitsAll (run [.queueEmplace 1, .queueEmplace 2, .queueEmplace 3,
      .queueEmplace 4, .queueEmplace 5]
      (init (fun _ => 0) : Buffer Nat ⟨5, by decide⟩)) := by
  rintro ⟨fuel, ps, hwalk, hlen, -, -⟩
  have hnil : walk ⟨0, some (5, 0)⟩ fuel ⟨0, some (5, 0)⟩ = some [] := by
    cases fuel <;> rfl
  have hps : some [] = some ps := hnil.symm.trans hwalk
  cases hps
  cases hlen

end Mutated.Ports.Buffer
