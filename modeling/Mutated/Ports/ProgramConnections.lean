import Mutated.Ports.ProgramCalls
import Mutated.Ports.ProgramTurns

/-!
# The connections of the program

`get_connection` finds a generator for every request: a new one, or one of the
pool, in turns or drawn at random.  `Sound` is the invariant of the generators:
every request was handed to one of them, and each counts its references.

## Main results

`getConnection_ok`: a request can always be handed over.
-/

namespace Mutated.Ports

open Mutated.Verified.Exec
open Mutated.Ports.Lifetime (Cell)

namespace Program

variable {R C : ℕ+}

/-- The settings that are considered: generators wait for their responses, a
pool is not empty, and one of its connections is drawn.  The parser does accept
`-z`, where they do not wait, and `-n 0`, where the pool is empty. -/
structure Setting.Valid (u : Setting) : Prop where
  replies : u.cfg.protocol = .synthetic → u.cfg.sendOnly = false
  pool : u.cfg.connMode ≠ .perRequest →
    u.pool.length = u.cfg.connCnt.toNat
  connected : u.cfg.connMode ≠ .perRequest → 0 < u.cfg.connCnt.toNat
  picks : u.cfg.connMode = .random → ∀ n,
    (u.attempts n).pick < u.cfg.connCnt.toNat

/-- The pool of connections. -/
def Setting.conns (u : Setting) : List Nat :=
  if u.cfg.connMode = .perRequest then [] else List.range u.pool.length

/-- With `roundRobin`, the connections of the pool took turns. -/
def Setting.Turns (u : Setting) (n : Nat) (p : Program R C) : Prop :=
  u.cfg.connMode = .roundRobin → Alternates u.pool.length n p

/-- The references that do not belong to a request. -/
def pooled (p : Program R C) (g : Nat) : Nat := if g ∈ p.conns then 1 else 0

/-- **The invariant** of the connections, when `n` requests were handed to
them. -/
structure Sound (u : Setting) (n : Nat) (p : Program R C) : Prop where
  links : ∀ (g : Nat) (l : Link R C), p.links[g]? = some l →
    l.Sound u (p.pooled g) l.made
  made : (p.links.flatMap Link.made).Perm (List.range n)
  conns : p.conns = u.conns
  born : ∀ g ∈ p.conns, g < p.links.length
  turns : u.Turns n p

/-- The `n`-th request was handed to the `g`-th generator, which was not called
yet. -/
structure Handed (u : Setting) (n g : Nat) (l : Link R C) (asked : List Nat)
    (p q : Program R C) : Prop where
  client : q.client = p.client
  serves : q.serves = p.serves
  conns : q.conns = p.conns
  born : p.links.length ≤ q.links.length
  link : q.links[g]? = some l
  handed : l.made = asked ++ [n]
  sound : l.Sound u (p.pooled g) asked
  others : ∀ (i : Nat) (l' : Link R C), i ≠ g → q.links[i]? = some l' →
    l'.Sound u (p.pooled i) l'.made
  made : (q.links.flatMap Link.made).Perm (p.links.flatMap Link.made ++ [n])
  waits : q.outstanding.Perm (p.outstanding ++ [n])
  lines : q.lines.Perm p.lines
  turns : u.Turns (n + 1) q

section Connections

variable {u : Setting} {n : Nat} {p : Program R C}

theorem modify_of_getElem? {α : Type} {ls : List α} {i : Nat} {x : α}
    (h : ls[i]? = some x) (f : α → α) : ls.modify i f = ls.set i (f x) := by
  apply List.ext_getElem?
  intro j
  rw [List.getElem?_modify, List.getElem?_set]
  by_cases hij : i = j
  · subst hij
    rw [if_pos rfl, h, if_pos (List.getElem?_eq_some_iff.mp h).1]
    simp
  · rw [if_neg hij]
    simp [hij]

@[simp] theorem Gen.done_new (m : Connections.Memory) :
    (Gen.new u m : Gen R C).done = [] := by
  rw [Gen.new]
  cases u.cfg.protocol <;> rfl

@[simp] theorem Gen.refs_new (m : Connections.Memory) :
    (Gen.new u m : Gen R C).shared.refs = .ok .new := by
  rw [Gen.new]
  cases u.cfg.protocol <;> rfl

/-- **A new connection** for a request. -/
theorem handed_new (hu : u.Valid) (hp : p.Sound u n)
    (hmode : u.cfg.connMode = .perRequest) (m : Connections.Memory) :
    Handed u n p.links.length ⟨.new u m, [n]⟩ [] p
      (({ p with links := p.links ++ [⟨.new u m, []⟩] } : Program R C).hand
        p.links.length n) := by
  have hlinks : (p.links ++ [(⟨.new u m, []⟩ : Link R C)]).modify
      p.links.length (fun l => { l with made := l.made ++ [n] }) =
        p.links ++ [⟨.new u m, [n]⟩] := by
    rw [modify_of_getElem? List.getElem?_concat_length]
    simp
  have hnone : p.conns = [] := by
    rw [hp.conns, Setting.conns, if_pos hmode]
  have hpooled (g : Nat) : p.pooled g = 0 := by simp [pooled, hnone]
  have hwaits : (⟨.new u m, [n]⟩ : Link R C).waits = [n] := by
    simp [Link.waits]
  refine ⟨rfl, rfl, rfl, ?_, ?_, rfl, ?_, ?_, ?_, ?_, ?_, ?_⟩
  · rw [hand, hlinks]
    simp
  · rw [hand, hlinks]
    simp
  · refine ⟨.new hu.replies m, .new, Gen.refs_new m, ?_⟩
    rw [hpooled, hwaits]
    exact ⟨rfl, rfl⟩
  · intro i l' hi hl'
    rw [hand, hlinks] at hl'
    have hlt : i < p.links.length := by
      have hbound := (List.getElem?_eq_some_iff.mp hl').1
      rw [List.length_append, List.length_singleton] at hbound
      omega
    rw [List.getElem?_append_left hlt] at hl'
    exact hp.links i l' hl'
  · rw [hand, hlinks, List.flatMap_append]
    simp
  · rw [hand, outstanding, hlinks, List.flatMap_append]
    simp [hwaits, outstanding]
  · rw [hand, lines, hlinks, List.flatMap_append]
    simp [measured, lines]
  · intro hturns
    rw [hmode] at hturns
    cases hturns

/-- **A connection of the pool** for a request. -/
theorem handed_pick (hp : p.Sound u n) {g : Nat} (hg : g ∈ p.conns)
    {idx : BitVec 32} (hidx : u.cfg.connMode = .roundRobin →
      idx = p.idx + 1 ∧ g = turn u.pool.length n) :
    ∃ l₀ gen l, p.links[g]? = some l₀ ∧
      l₀.gen.onRefs Cell.get = .ok () gen ∧
      Handed u n g l l₀.made p (({ p with
        idx := idx
        links := p.links.set g { l₀ with gen := gen } } :
          Program R C).hand g n) := by
  have hlt := hp.born g hg
  have hl₀ := List.getElem?_eq_getElem hlt
  generalize p.links[g] = l₀ at hl₀
  have hold := hp.links g l₀ hl₀
  obtain ⟨c, hrefs, hright⟩ := hold.refs
  have hpooled : p.pooled g = 1 := if_pos hg
  obtain ⟨c', hget, hright'⟩ := hright.get (by omega)
  let gen := l₀.gen.setShared { l₀.gen.shared with refs := .ok c' }
  let l : Link R C := ⟨gen, l₀.made ++ [n]⟩
  have hdone : gen.done = l₀.gen.done := Gen.done_setShared _ _
  have hlinks : (p.links.set g { l₀ with gen := gen }).modify g
      (fun l => { l with made := l.made ++ [n] }) = p.links.set g l := by
    rw [modify_of_getElem? (List.getElem?_set_self hlt), List.set_set]
  have hwaits : l.waits = l₀.waits ++ [n] := by
    rw [Link.waits, hdone,
      List.drop_append_of_le_length hold.gen.order.length_le]
    rfl
  refine ⟨l₀, gen, l, hl₀, Gen.onRefs_ok hrefs hget, rfl, rfl, rfl, ?_, ?_,
    rfl, ⟨hold.gen.setShared _, c', ?_, ?_⟩, ?_, ?_, ?_, ?_, ?_⟩
  · rw [hand, hlinks, List.length_set]
  · rw [hand, hlinks, List.getElem?_set_self hlt]
  · exact congrArg Shared.refs (Gen.shared_setShared _ _)
  · rw [hwaits, List.length_append, List.length_singleton, ← Nat.add_assoc]
    exact hright'
  · intro i l' hi hl'
    rw [hand, hlinks, List.getElem?_set_ne (Ne.symm hi)] at hl'
    exact hp.links i l' hl'
  · obtain ⟨rest, hrest⟩ := flatMap_set Link.made hl₀
    rw [hand, hlinks]
    refine (hrest l).trans (List.Perm.trans ?_
      ((flatMap_perm hl₀ hrest).symm.append_right _))
    rw [List.append_assoc, List.append_assoc]
    exact List.perm_append_comm.append_left _
  · obtain ⟨rest, hrest⟩ := flatMap_set Link.waits hl₀
    rw [hand, outstanding, hlinks]
    refine (hrest l).trans (List.Perm.trans ?_
      ((flatMap_perm hl₀ hrest).symm.append_right _))
    rw [hwaits, List.append_assoc, List.append_assoc]
    exact List.perm_append_comm.append_left _
  · obtain ⟨rest, hrest⟩ := flatMap_set
      (fun l : Link R C => measured l.gen.done) hl₀
    rw [hand, lines, hlinks]
    refine (hrest l).trans ?_
    rw [show measured l.gen.done = measured l₀.gen.done from
      congrArg measured hdone]
    exact (flatMap_perm hl₀ hrest).symm
  · intro hmode
    obtain ⟨rfl, hturn⟩ := hidx hmode
    exact (hp.turns hmode).hand hl₀ hturn gen

theorem pick_ok (hp : p.Sound u n) {q : Program R C} {idx : BitVec 32}
    (hq : q = { p with idx := idx }) {i g : Nat} (hi : p.conns[i]? = some g)
    (hidx : u.cfg.connMode = .roundRobin →
      idx = p.idx + 1 ∧ g = turn u.pool.length n) :
    ∃ p' l asked, pick i q = .ok g p' ∧
      Handed u n g l asked p (p'.hand g n) := by
  obtain ⟨l₀, gen, l, hl₀, hget, hhanded⟩ :=
    handed_pick hp (List.mem_of_getElem? hi) hidx
  refine ⟨_, l, _, ?_, hhanded⟩
  subst hq
  refine (bind_of_ok rfl).trans ?_
  simp only [hi, hl₀, hget]
  rfl

/-- **`get_connection`** returns, and the request can be handed over. -/
theorem getConnection_ok (hu : u.Valid) (hp : p.Sound u n) (i : Nat) :
    ∃ g p' l asked, getConnection u (u.attempts i) p = .ok g p' ∧
      Handed u n g l asked p (p'.hand g n) := by
  rw [getConnection]
  cases hmode : u.cfg.connMode with
  | perRequest => exact ⟨_, _, _, _, rfl, handed_new hu hp hmode _⟩
  | roundRobin =>
      have hpool : p.conns = List.range u.pool.length := by
        rw [hp.conns, Setting.conns, hmode]
        rfl
      have hpos : 0 < u.pool.length := by
        rw [hu.pool (by simp [hmode])]
        exact hu.connected (by simp [hmode])
      have hi : p.conns[(p.idx.signExtend 64).toNat % p.conns.length]? =
          some (turn u.pool.length n) := by
        rw [hpool, List.length_range, (hp.turns hmode).idx]
        exact List.getElem?_range (Nat.mod_lt _ hpos)
      obtain ⟨p', l, asked, hrun, hhanded⟩ := pick_ok hp
        (q := { p with idx := p.idx + 1 }) rfl hi fun _ => ⟨rfl, rfl⟩
      exact ⟨_, p', l, asked, hrun, hhanded⟩
  | random =>
      have hpool : p.conns = List.range u.cfg.connCnt.toNat := by
        rw [hp.conns, Setting.conns, hmode, ← hu.pool (by simp [hmode])]
        rfl
      have hlt : (u.attempts i).pick < p.conns.length := by
        rw [hpool, List.length_range]
        exact hu.picks hmode i
      obtain ⟨p', l, asked, hrun, hhanded⟩ := pick_ok hp
        (q := p) rfl (List.getElem?_eq_getElem hlt) fun hturns => by
          rw [hmode] at hturns
          cases hturns
      exact ⟨_, p', l, asked, hrun, hhanded⟩

end Connections

end Program

end Mutated.Ports
