import Mutated.Ports.ProgramCalls

/-!
# Connections that take turns

With `roundRobin` the `i`-th request goes to the connection `idx++ % size`.
`idx` is an `int`, and is converted to `size_t` for the remainder: behind
`2^31` requests it is negative, and the turns are not those of `i % size` any
more.

`Alternates` says which requests each connection of the pool was handed.  It
is kept when the next request is handed over and when a generator is called.
-/

namespace Mutated.Ports

open Mutated.Ports.Load

namespace Program

variable {R C : ℕ+}

/-- The connection of `k` whose turn the `i`-th request is. -/
def turn (k i : Nat) : Nat := ((BitVec.ofNat 32 i).signExtend 64).toNat % k

theorem turn_of_lt {i : Nat} (h : i < 2 ^ 31) (k : Nat) :
    turn k i = i % k := by
  have hi : (BitVec.ofNat 32 i).toNat = i := by
    rw [BitVec.toNat_ofNat]
    omega
  have hmsb : (BitVec.ofNat 32 i).msb = false := by
    rw [BitVec.msb_eq_false_iff_two_mul_lt, hi]
    omega
  rw [turn, BitVec.signExtend_eq_setWidth_of_msb_false hmsb,
    BitVec.toNat_setWidth, hi, Nat.mod_eq_of_lt (by omega : i < 2 ^ 64)]

/-- The requests that come to the `g`-th connection, of the first `n`. -/
def dealt (k n g : Nat) : List Nat :=
  (List.range n).filter fun i => turn k i = g

theorem dealt_succ (k n g : Nat) :
    dealt k (n + 1) g = dealt k n g ++ if turn k n = g then [n] else [] := by
  rw [dealt, List.range_succ, List.filter_append]
  by_cases h : turn k n = g
  · simp [dealt, h]
  · simp [dealt, h]

/-- **The connections took turns** with the first `n` requests. -/
structure Alternates (k n : Nat) (p : Program R C) : Prop where
  idx : p.idx = BitVec.ofNat 32 n
  made : p.links.map Link.made = (List.range k).map (dealt k n)

namespace Alternates

variable {k n : Nat} {p : Program R C}

theorem length_eq (h : Alternates k n p) : p.links.length = k := by
  have hlength := congrArg List.length h.made
  rwa [List.length_map, List.length_map, List.length_range] at hlength

theorem made_eq (h : Alternates k n p) {g : Nat} {l : Link R C}
    (hl : p.links[g]? = some l) : l.made = dealt k n g := by
  have hlt := (List.getElem?_eq_some_iff.mp hl).1
  have hg := congrArg (·[g]?) h.made
  simp only [List.getElem?_map, hl, Option.map_some] at hg
  rw [List.getElem?_range (h.length_eq ▸ hlt)] at hg
  exact Option.some.inj hg

/-- The invariant speaks of `idx` and of what was handed over. -/
theorem congr {q : Program R C} (h : Alternates k n p) (hidx : q.idx = p.idx)
    (hmade : q.links.map Link.made = p.links.map Link.made) :
    Alternates k n q :=
  ⟨hidx.trans h.idx, hmade.trans h.made⟩

/-- A generator was called. -/
theorem set {i : Nat} {l : Link R C} (h : Alternates k n p)
    (hl : p.links[i]? = some l) (gen : Gen R C) (client : Client)
    (serves : List Served) :
    Alternates k n { p with
      client := client
      links := p.links.set i { l with gen := gen }
      serves := serves } := by
  refine h.congr rfl ?_
  obtain ⟨hlt, rfl⟩ := List.getElem?_eq_some_iff.mp hl
  apply List.ext_getElem?
  intro j
  rw [List.getElem?_map, List.getElem?_map, List.getElem?_set]
  by_cases hij : i = j
  · subst hij
    simp [hlt]
  · simp [hij]

/-- **The next request** is handed over. -/
theorem hand {g : Nat} {l : Link R C} (h : Alternates k n p)
    (hl : p.links[g]? = some l) (hturn : g = turn k n) (gen : Gen R C) :
    Alternates k (n + 1) (({ p with
      idx := p.idx + 1
      links := p.links.set g { l with gen := gen } } : Program R C).hand
        g n) := by
  refine ⟨?_, ?_⟩
  · show p.idx + 1 = _
    rw [h.idx, BitVec.ofNat_add]
    rfl
  · apply List.ext_getElem?
    intro j
    have hlt := (List.getElem?_eq_some_iff.mp hl).1
    have hj := congrArg (·[j]?) h.made
    simp only [List.getElem?_map] at hj
    simp only [Program.hand, List.getElem?_map, List.getElem?_modify,
      List.getElem?_set]
    by_cases hgj : g = j
    · subst hgj
      rw [List.getElem?_range (h.length_eq ▸ hlt)] at hj ⊢
      rw [hl] at hj
      simp [hlt, dealt_succ, ← hturn, Option.some.inj hj]
    · simp only [hgj, if_false, id_map']
      rcases Nat.lt_or_ge j k with hjk | hjk
      · rw [List.getElem?_range hjk] at hj ⊢
        rw [hj]
        simp [dealt_succ, ← hturn, hgj]
      · rw [List.getElem?_eq_none (by rw [h.length_eq]; exact hjk),
          List.getElem?_eq_none (by rw [List.length_range]; exact hjk)]
        rfl

end Alternates

end Program

end Mutated.Ports
