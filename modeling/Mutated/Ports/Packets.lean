import Mutated.Ports.Memcache
import Mutated.Ports.Synthetic

/-!
# Packets that the end of the ring cuts

Both ways to add a packet to `wbuf_`, `write_emplace` and the copy that
`Synthetic::_send_request` makes by hand, build the packet in the ring where it
fits before the ring's end, and on the stack otherwise.  The second copy from
the stack should start at byte `n1` of the packet, but `&t + n1` is `n1` whole
packets further, because the pointer is typed.

`copied_iff` says of two such copies when they give the packet whatever the
memory behind it holds: when the first one was already enough.
-/

namespace Mutated.Ports

open Mutated.Verified.Circular
open Mutated.Verified.Exec

/-! ## Two copies -/

/-- The bytes two copies read of an object of `n` bytes that starts with
`rep`: `cut` bytes from its start, and the others `cut` objects later. -/
def copied (n cut : Nat) (rep : List UInt8) (stack : Nat → UInt8) :
    List UInt8 :=
  block (blit stack 0 rep) 0 cut ++
    block (blit stack 0 rep) (cut * n) (n - cut)

@[simp] theorem length_copied {n cut : Nat} (hcut : cut ≤ n)
    (rep : List UInt8) (stack : Nat → UInt8) :
    (copied n cut rep stack).length = n := by
  rw [copied, List.length_append, length_block, length_block]
  omega

/-- The first copy reads the object. -/
theorem copied_of_le {n cut : Nat} {rep : List UInt8}
    (hrep : rep.length ≤ cut) (stack : Nat → UInt8) :
    (copied n cut rep stack).take rep.length = rep := by
  rw [copied, List.take_append_of_le_length (by rw [length_block]; exact hrep)]
  obtain ⟨more, rfl⟩ := Nat.exists_eq_add_of_le hrep
  have hread := block_blit stack 0 rep
  simp only [block] at hread ⊢
  rw [List.range_add, List.map_append, List.take_left' (by simp), hread]

/-- The second copy reads the memory behind the object. -/
theorem copied_behind {n cut : Nat} {rep : List UInt8} (hcut : 0 < cut)
    (hn : rep.length ≤ n) (hrep : cut < rep.length)
    (stack : Nat → UInt8) :
    (copied n cut rep stack)[cut]? = some (stack (cut * n)) := by
  have hfar : n ≤ cut * n := Nat.le_mul_of_pos_left n hcut
  have hout : rep[cut * n]? = none :=
    List.getElem?_eq_none (by omega)
  have hfirst : (block (blit stack 0 rep) 0 cut).length = cut :=
    length_block _ _ _
  rw [copied, List.getElem?_append_right (Nat.le_of_eq hfirst), hfirst,
    Nat.sub_self]
  have hpos : 0 < n - cut := by omega
  simp [block, blit, List.getElem?_range hpos, hout]

/-- **Two copies give the object** whatever lies behind it exactly when the
first one was enough. -/
theorem copied_iff {n cut : Nat} {rep : List UInt8} (hcut : 0 < cut)
    (hn : rep.length ≤ n) :
    (∀ stack, (copied n cut rep stack).take rep.length = rep) ↔
      rep.length ≤ cut := by
  constructor
  · intro hall
    by_contra hshort
    have hlt : cut < rep.length := by omega
    have hbyte := copied_behind hcut hn hlt fun _ => rep[cut] + 1
    rw [← List.getElem?_take_of_lt hlt, hall, List.getElem?_eq_getElem hlt,
      Option.some.injEq] at hbyte
    exact absurd hbyte (by simp)
  · exact fun hrep stack => copied_of_le hrep stack

/-- Agreeing with a list as far as it goes. -/
private theorem agree_iff {xs ys : List UInt8} (h : ys.length ≤ xs.length) :
    (∀ i, i < ys.length → xs[i]? = ys[i]?) ↔ xs.take ys.length = ys := by
  constructor
  · intro hall
    apply List.ext_getElem?
    intro i
    rcases Nat.lt_or_ge i ys.length with hlt | hge
    · rw [List.getElem?_take_of_lt hlt]
      exact hall i hlt
    · rw [List.getElem?_eq_none hge, List.getElem?_eq_none]
      rw [List.length_take]
      omega
  · intro heq i hlt
    have hi := List.getElem?_take_of_lt (l := xs) hlt
    rw [heq] at hi
    exact hi.symm

/-! ## Packets -/

/-- The packet objects of the three protocols. -/
inductive Packet
  | header (h : MemcHeader)
  | extras
  | synthetic (pkt : Synthetic.ReqPkt)

namespace Packet

/-- `sizeof` of the packet. -/
def size : Packet → Nat
  | .header _ => MemcHeader.size
  | .extras => 8
  | .synthetic _ => Synthetic.reqPktSize

/-- The bytes of the packet that are initialised, which come first. -/
def rep : Packet → List UInt8
  | .header h => h.bytes
  | .extras => memcExtrasSet
  | .synthetic pkt => pkt.bytes

theorem rep_le (pkt : Packet) : 0 < pkt.size ∧ pkt.rep.length ≤ pkt.size := by
  cases pkt with
  | header h => simp [rep, size, MemcHeader.size]
  | extras => simp [rep, size, memcExtrasSet]
  | synthetic pkt => simp [rep, size, Synthetic.reqPktSize]

variable {W : Type} {R C : ℕ+}

/-- How the packet is added to `wbuf_`. -/
def append (pkt : Packet) (stack : Nat → UInt8) :
    EStateM Exn (Sock W R C) Unit :=
  match pkt with
  | .header h => Sock.writeEmplace h.bytes stack
  | .extras => Sock.writeEmplace memcExtrasSet stack
  | .synthetic pkt => Synthetic.writePacket pkt stack

/-- Adding the packet to `wbuf_` appends as many bytes as it has, and those
that are initialised are its own. -/
def Faithful (s : Sock W R C) (pkt : Packet) (stack : Nat → UInt8) : Prop :=
  ∃ s' bytes, pkt.append stack s = .ok () s' ∧ bytes.length = pkt.size ∧
    s'.wbuf.toList = s.wbuf.toList ++ bytes ∧
    ∀ i, i < pkt.rep.length → bytes[i]? = pkt.rep[i]?

/-- The bytes behind the tail once a packet was added. -/
private theorem faithful_iff {s : Sock W R C} {pkt : Packet}
    {stack : Nat → UInt8} (h : s.WF) {xs : List UInt8}
    (hrep : pkt.rep.length ≤ xs.length) (hxs : xs.length ≤ pkt.size)
    (hfit : pkt.size ≤ s.wbuf.space)
    (hrun : pkt.append stack s = .ok () { s with
      wbuf := (s.wbuf.stored xs).committed pkt.size }) :
    pkt.Faithful s stack ↔ xs.take pkt.rep.length = pkt.rep := by
  have hspace : s.wbuf.space = C - s.wbuf.used := rfl
  have hlist := Buffer.committed_toList (h.wbuf.stored xs) pkt.size
  rw [Buffer.stored_toList h.wbuf (by omega)] at hlist
  have hread := scatter_window s.wbuf.buf h.wbuf.tail_lt
    (show xs.length ≤ C by omega)
  have hbytes : (window C (s.wbuf.stored xs).buf (s.wbuf.stored xs).tail
      pkt.size).take xs.length = xs := by
    rw [take_window hxs]
    exact hread
  have htake : (window C (s.wbuf.stored xs).buf (s.wbuf.stored xs).tail
      pkt.size).take pkt.rep.length = xs.take pkt.rep.length := by
    calc _ = ((window C (s.wbuf.stored xs).buf (s.wbuf.stored xs).tail
          pkt.size).take xs.length).take pkt.rep.length := by
          rw [List.take_take, Nat.min_eq_left hrep]
      _ = _ := by rw [hbytes]
  constructor
  · rintro ⟨s', bytes, hok, hlen, happend, hall⟩
    cases hrun.symm.trans hok
    have hsuffix := List.append_cancel_left (hlist.symm.trans happend)
    rw [← hsuffix, agree_iff (by rw [length_window]; omega), htake] at hall
    exact hall
  · intro heq
    refine ⟨_, _, hrun, length_window _ _ _ _, hlist, ?_⟩
    rw [agree_iff (by rw [length_window]; omega), htake]
    exact heq

/-- An object that `write_emplace` adds. -/
private theorem emplace_faithful_iff {s : Sock W R C} (pkt : Packet)
    (h : s.WF) (hsize : pkt.size = pkt.rep.length)
    (happend : ∀ stack, pkt.append stack =
      (Sock.writeEmplace pkt.rep stack : EStateM Exn (Sock W R C) Unit))
    (hfit : pkt.size ≤ s.wbuf.space) (stack : Nat → UInt8) :
    pkt.Faithful s stack ↔ s.wbuf.tail + pkt.size < C ∨
      (copied pkt.size (C - s.wbuf.tail) pkt.rep stack).take
        pkt.rep.length = pkt.rep := by
  have hpos := (rep_le pkt).1
  have hlen := Sock.length_emplaced pkt.rep stack h.wbuf.tail_lt
  have hrun : Sock.writeEmplace pkt.rep stack s = _ :=
    Sock.writeEmplace_ok h (by omega) (by omega)
  rw [Sock.written, hlen, ← hsize, ← happend] at hrun
  rw [faithful_iff h (by omega) (by omega) hfit hrun, Sock.emplaced, ← hsize]
  by_cases hwrap : C ≤ s.wbuf.tail + pkt.size
  · rw [if_pos hwrap, or_iff_right (by omega)]
    rfl
  · rw [if_neg hwrap, hsize, List.take_length]
    exact iff_of_true rfl (.inl (by omega))

/-- The packet that `_send_request` copies by hand. -/
private theorem synthetic_faithful_iff {s : Sock W R C}
    {pkt : Synthetic.ReqPkt} (h : s.WF)
    (hfit : Synthetic.reqPktSize ≤ s.wbuf.space) (stack : Nat → UInt8) :
    (Packet.synthetic pkt).Faithful s stack ↔
      s.wbuf.tail + Synthetic.reqPktSize < C ∨
      (copied Synthetic.reqPktSize (C - s.wbuf.tail) pkt.bytes stack).take
        pkt.bytes.length = pkt.bytes := by
  have hrep := (rep_le (.synthetic pkt)).2
  have hbytes := pkt.length_bytes
  have hrun : Synthetic.writePacket pkt stack s = _ :=
    Synthetic.writePacket_ok h hfit
  by_cases hwhole : s.wbuf.tail + Synthetic.reqPktSize ≤ C
  · rw [Synthetic.placed, if_pos hwhole] at hrun
    rw [faithful_iff h (Nat.le_refl _) hrep hfit hrun]
    refine iff_of_true (List.take_length ..) (.inr (copied_of_le ?_ stack))
    have hsize : Synthetic.reqPktSize = 144 := rfl
    omega
  · have hlen := length_copied
      (show C - s.wbuf.tail ≤ Synthetic.reqPktSize by omega) pkt.bytes stack
    rw [Synthetic.placed, if_neg hwhole] at hrun
    rw [faithful_iff h (hrep.trans (Nat.le_of_eq
      hlen.symm)) (Nat.le_of_eq hlen) hfit hrun, or_iff_right (by omega)]
    rfl

/-- A packet is its own as far as the two copies of it are. -/
private theorem faithful_iff_copied {s : Sock W R C} (h : s.WF)
    (pkt : Packet) (hfit : pkt.size ≤ s.wbuf.space) (stack : Nat → UInt8) :
    pkt.Faithful s stack ↔ s.wbuf.tail + pkt.size < C ∨
      (copied pkt.size (C - s.wbuf.tail) pkt.rep stack).take
        pkt.rep.length = pkt.rep := by
  cases pkt with
  | header hdr =>
      exact emplace_faithful_iff (.header hdr) h
        hdr.length_bytes.symm (fun _ => rfl) hfit stack
  | extras =>
      exact emplace_faithful_iff .extras h rfl (fun _ => rfl) hfit stack
  | synthetic pkt => exact synthetic_faithful_iff h hfit stack

/-- **A packet is added faithfully**, whatever the memory around it holds,
exactly when the ring does not end inside its initialised bytes. -/
theorem append_faithful_iff {s : Sock W R C} (h : s.WF) (pkt : Packet)
    (hfit : pkt.size ≤ s.wbuf.space) :
    (∀ stack, pkt.Faithful s stack) ↔ s.wbuf.tail + pkt.rep.length ≤ C := by
  have htail := h.wbuf.tail_lt
  have hrep := (rep_le pkt).2
  have hcopied := copied_iff (Nat.sub_pos_of_lt htail) hrep
  constructor
  · intro hall
    by_contra hcut
    refine absurd (hcopied.mp fun stack => ?_) (by omega)
    refine ((faithful_iff_copied h pkt hfit stack).mp (hall stack)).resolve_left
      (by omega)
  · intro hle stack
    exact (faithful_iff_copied h pkt hfit stack).mpr
      (.inr (hcopied.mpr (by omega) stack))

/-- An empty socket whose next byte goes to slot `tail` of `wbuf_`. -/
private def emptyAt (tail : Nat) : Sock Unit R C :=
  { Sock.init 0 (fun _ => 0) (fun _ => 0) () with
    wbuf := ⟨fun _ => 0, tail, tail, 0⟩ }

private theorem emptyAt_wf {tail : Nat} (h : tail < C) :
    (emptyAt tail : Sock Unit R C).WF :=
  ⟨Buffer.init_wf _, Buffer.init_wf _, Buffer.init_wf _,
    ⟨h, Nat.zero_le _, (Nat.mod_eq_of_lt h).symm⟩⟩

/-- The extras of a set take up the last eight slots of the ring, or one slot
too many. -/
theorem append_faithful_iff_extras :
    (∀ stack, Packet.extras.Faithful (emptyAt (charbufSize - 8) :
      Sock Unit maxOutstandingReqs charbufSize) stack) ∧
    ¬ ∀ stack, Packet.extras.Faithful (emptyAt (charbufSize - 7) :
      Sock Unit maxOutstandingReqs charbufSize) stack := by
  rw [append_faithful_iff (emptyAt_wf (by decide)) .extras (by decide),
    append_faithful_iff (emptyAt_wf (by decide)) .extras (by decide)]
  exact ⟨by decide, by decide⟩

/-- The extras of a set, of which four bytes fit before the end of the ring,
while the memory behind them on the stack holds ones. -/
theorem not_faithful_cut : ∃ s : Sock Unit maxOutstandingReqs charbufSize,
    s = emptyAt (charbufSize - 4) ∧ s.WF ∧
      Packet.extras.size ≤ s.wbuf.space ∧
      ¬ Packet.extras.Faithful s (fun _ => 1) := by
  have hwf : (emptyAt (charbufSize - 4) :
      Sock Unit maxOutstandingReqs charbufSize).WF :=
    emptyAt_wf (by decide)
  refine ⟨_, rfl, hwf, by decide, ?_⟩
  rw [faithful_iff_copied hwf .extras (by decide)]
  decide

end Packet

end Mutated.Ports
