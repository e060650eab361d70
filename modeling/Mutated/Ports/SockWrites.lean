import Mutated.Ports.SockTx

/-!
# What a request adds to the bytes that wait

A request is written in pieces: objects that are built in the ring, keys that
are copied, and values for which room is made without storing anything.
`Appends n` says of such a piece that it adds `n` bytes at the end of `wbuf_`
and changes nothing else; pieces add up.

Which bytes an object adds is `emplaced`: when the ring ends inside of it the
second part is read from the wrong place.
-/

namespace Mutated.Ports

open Mutated.Verified.Circular
open Mutated.Verified.Exec

variable {W : Type} {R C : ℕ+}

/-- A call that returns has added `n` bytes to `wbuf_`, and nothing else. -/
def Appends (n : Nat) (x : EStateM Exn (Sock W R C) Unit) : Prop :=
  ∀ s s' : Sock W R C, s.WF → x s = .ok () s' →
    ∃ (b : Buffer UInt8 C) (bytes : List UInt8), s' = { s with wbuf := b } ∧
      b.WF ∧ bytes.length = n ∧ b.toList = s.wbuf.toList ++ bytes

/-- What a call that writes leaves alone, also when it throws. -/
def Sock.writeFrame (s : Sock W R C) :=
  (s.rxSide, s.txCbs, s.txOut, s.trace, s.npoint, s.world)

/-- A call that writes throws what a buffer throws, and touches nothing but
`wbuf_`. -/
structure Writes (x : EStateM Exn (Sock W R C) Unit) : Prop where
  throws : Throws BufferExn x
  quiet : Keeps Sock.writeFrame x

theorem Appends.bind {m n : Nat} {x y : EStateM Exn (Sock W R C) Unit}
    (hx : Appends m x) (hy : Appends n y) :
    Appends (m + n) (x >>= fun _ => y) := by
  intro s u h hrun
  obtain ⟨⟨⟩, t, hfirst, hrest⟩ := bind_eq_ok.mp hrun
  obtain ⟨b, bytes, rfl, hb, hlen, hlist⟩ := hx _ _ h hfirst
  obtain ⟨b', bytes', rfl, hb', hlen', hlist'⟩ :=
    hy _ _ (show ({ s with wbuf := b } : Sock W R C).WF from
      ⟨h.rxCbs, h.rbuf, h.txCbs, hb⟩) hrest
  refine ⟨b', bytes ++ bytes', rfl, hb', ?_, ?_⟩
  · rw [List.length_append, hlen, hlen']
  · rw [hlist', ← List.append_assoc]
    exact congrArg (· ++ bytes') hlist

theorem Writes.bind {x y : EStateM Exn (Sock W R C) Unit} (hx : Writes x)
    (hy : Writes y) : Writes (x >>= fun _ => y) :=
  ⟨throws_bind hx.throws fun _ => hy.throws,
    keeps_bind hx.quiet fun _ => hy.quiet⟩

/-- A call on `wbuf_` alone. -/
theorem keeps_onWbuf {α : Type}
    (x : EStateM Exn (Buffer UInt8 C) α) :
    Keeps Sock.writeFrame (Sock.onWbuf x : EStateM Exn (Sock W R C) α) := by
  refine keeps_zoom ?_ x
  exact fun _ _ => rfl

/-- Storing some bytes behind the tail and committing `n`, which may be
more. -/
theorem stored_committed {b : Buffer UInt8 C} (h : b.WF)
    {xs : List UInt8} {n : Nat} (hxs : xs.length ≤ n) (hfit : n ≤ b.space) :
    ((b.stored xs).committed n).WF ∧ ∃ bytes : List UInt8,
      bytes.length = n ∧
      ((b.stored xs).committed n).toList = b.toList ++ bytes := by
  have hstored := h.stored xs
  refine ⟨hstored.committed hfit,
    window C (b.stored xs).buf (b.stored xs).tail n, length_window _ _ _ n, ?_⟩
  rw [Buffer.committed_toList hstored,
    Buffer.stored_toList h (Nat.le_trans hxs hfit)]

/-- A call that asks for `n` bytes, stores some, and commits them all. -/
theorem appends_of_prepared {x : EStateM Exn (Sock W R C) Unit}
    {n : Nat} (hok : ∀ {s : Sock W R C}, s.WF → 0 < n →
      n ≤ s.wbuf.space → ∃ xs : List UInt8, xs.length ≤ n ∧
        x s = .ok () { s with wbuf := (s.wbuf.stored xs).committed n })
    (hthrow : ∀ {s : Sock W R C}, n = 0 ∨ s.wbuf.space < n →
      ∃ e, x s = .error e s) : Appends n x := by
  intro s s' h hrun
  by_cases hfit : 0 < n ∧ n ≤ s.wbuf.space
  · obtain ⟨xs, hxs, hwrite⟩ := hok h hfit.1 hfit.2
    cases hwrite.symm.trans hrun
    obtain ⟨hwf, bytes, hlen, hlist⟩ := stored_committed h.wbuf hxs hfit.2
    exact ⟨_, bytes, rfl, hwf, hlen, hlist⟩
  · obtain ⟨e, hfail⟩ := hthrow (show n = 0 ∨ s.wbuf.space < n by omega)
    cases hfail.symm.trans hrun

namespace Sock

/-! ## `write` -/

theorem write_writes (data : List UInt8) :
    Writes (write data : EStateM Exn (Sock W R C) Unit) where
  throws := throws_bind (throws_zoom (Buffer.queuePrep_throws_only _))
    fun _ => throws_bind (throws_zoom (throws_modify _))
      fun _ => throws_zoom (Buffer.queueCommit_throws_only _)
  quiet := keeps_bind (keeps_onWbuf _)
    fun _ => keeps_bind (keeps_onWbuf _)
      fun _ => keeps_onWbuf _

theorem write_appends (data : List UInt8) :
    Appends data.length (write data : EStateM Exn (Sock W R C) Unit) :=
  appends_of_prepared
    (fun h hpos hfit => ⟨data, Nat.le_refl _, write_ok h hpos hfit⟩)
    fun hbad => write_throws hbad

/-! ## `write_emplace` -/

/-- The bytes `write_emplace` adds for an object whose first byte goes to slot
`tail`. -/
def emplaced (C tail : Nat) (obj : List UInt8) (stack : Nat → UInt8) :
    List UInt8 :=
  if C ≤ tail + obj.length then
    block (blit stack 0 obj) 0 (C - tail) ++
      block (blit stack 0 obj) ((C - tail) * obj.length)
        (obj.length - (C - tail))
  else obj

theorem length_emplaced {tail : Nat} (obj : List UInt8)
    (stack : Nat → UInt8) (htail : tail < C) :
    (emplaced C tail obj stack).length = obj.length := by
  unfold emplaced
  split
  · rw [List.length_append, length_block, length_block]
    omega
  · rfl

/-- **What is cut off** is read from behind the object, byte by byte. -/
theorem emplaced_cut {tail i : Nat} {obj : List UInt8} {stack : Nat → UInt8}
    (htail : tail < C) (hcut : C ≤ tail + i) (hi : i < obj.length) :
    (emplaced C tail obj stack)[i]? =
      some (stack ((C - tail) * obj.length + (i - (C - tail)))) := by
  have hfirst : (block (blit stack 0 obj) 0 (C - tail)).length = C - tail :=
    length_block _ _ _
  have hfar : obj.length ≤ (C - tail) * obj.length :=
    Nat.le_mul_of_pos_left _ (Nat.sub_pos_of_lt htail)
  have hout : obj[(C - tail) * obj.length + (i - (C - tail))]? = none :=
    List.getElem?_eq_none (by omega)
  have hlt : i - (C - tail) < obj.length - (C - tail) := by omega
  rw [emplaced, if_pos (by omega),
    List.getElem?_append_right (by rw [hfirst]; omega), hfirst]
  simp [block, blit, List.getElem?_range hlt, hout]

/-- Storing an object in two parts. -/
theorem blit_two_parts {mem : Nat → UInt8} {tail : Nat}
    {xs : List UInt8} (ys : List UInt8) (hxs : xs.length = C - tail) :
    blit (blit mem tail xs) 0 ys = scatter C mem tail (xs ++ ys) := by
  rw [scatter, ← hxs, List.take_left' rfl, List.drop_left' rfl]

theorem writeEmplace_ok {s : Sock W R C} (h : s.WF) {obj : List UInt8}
    {stack : Nat → UInt8} (hpos : 0 < obj.length)
    (hfit : obj.length ≤ s.wbuf.space) :
    writeEmplace obj stack s =
      .ok () (s.written (emplaced C s.wbuf.tail obj stack)) := by
  have htail := h.wbuf.tail_lt
  have hlen := length_emplaced obj stack htail
  refine (bind_of_ok (writePrepare_ok h hpos hfit)).trans ?_
  by_cases hwrap : C ≤ s.wbuf.tail + obj.length
  · have hcut : min obj.length (C - s.wbuf.tail) = C - s.wbuf.tail := by
      omega
    have hmem : blit (blit s.wbuf.buf s.wbuf.tail
        (block (blit stack 0 obj) 0 (C - s.wbuf.tail))) 0
        (block (blit stack 0 obj) ((C - s.wbuf.tail) * obj.length)
          (obj.length - (C - s.wbuf.tail))) =
        scatter C s.wbuf.buf s.wbuf.tail
          (emplaced C s.wbuf.tail obj stack) := by
      rw [emplaced, if_pos hwrap]
      exact blit_two_parts _ (length_block _ _ _)
    rw [if_pos hwrap, hcut]
    refine (bind_of_ok (zoom_of_ok (modify_apply _ _))).trans ?_
    rw [hmem]
    have hwf : ({ s with wbuf := (s.wbuf.stored
        (emplaced C s.wbuf.tail obj stack)) } : Sock W R C).WF :=
      ⟨h.rxCbs, h.rbuf, h.txCbs, h.wbuf.stored _⟩
    rw [written, hlen]
    exact writeCommit_ok hwf hpos hfit
  · have hobj : emplaced C s.wbuf.tail obj stack = obj := if_neg hwrap
    have hfill : s.wbuf.fill s.wbuf.tail none
        (min obj.length (C - s.wbuf.tail)) obj = s.wbuf.stored obj := by
      have hfill := Buffer.fill_eq_stored h.wbuf (Nat.le_refl obj.length)
      rwa [if_neg hwrap] at hfill
    rw [if_neg hwrap]
    refine (bind_of_ok (zoom_of_ok (modify_apply _ _))).trans ?_
    rw [hfill, hobj]
    have hwf : ({ s with wbuf := s.wbuf.stored obj } : Sock W R C).WF :=
      ⟨h.rxCbs, h.rbuf, h.txCbs, h.wbuf.stored obj⟩
    exact writeCommit_ok hwf hpos hfit

theorem writeEmplace_writes (obj : List UInt8) (stack : Nat → UInt8) :
    Writes (writeEmplace obj stack : EStateM Exn (Sock W R C) Unit) where
  throws := by
    refine throws_bind (throws_zoom (Buffer.queuePrep_throws_only _)) ?_
    rintro ⟨p1, _ | p2, n1⟩
    all_goals
      exact throws_bind (throws_zoom (throws_modify _))
        fun _ => throws_zoom (Buffer.queueCommit_throws_only _)
  quiet := by
    refine keeps_bind (keeps_onWbuf _) ?_
    rintro ⟨p1, _ | p2, n1⟩
    all_goals
      exact keeps_bind (keeps_onWbuf _)
        fun _ => keeps_onWbuf _

theorem writeEmplace_appends (obj : List UInt8) (stack : Nat → UInt8) :
    Appends obj.length
      (writeEmplace obj stack : EStateM Exn (Sock W R C) Unit) := by
  refine appends_of_prepared (fun {s} h hpos hfit => ?_) fun {s} hbad => ?_
  · have hlen := length_emplaced obj stack h.wbuf.tail_lt
    refine ⟨_, Nat.le_of_eq hlen, ?_⟩
    rw [writeEmplace_ok h hpos hfit, written, hlen]
  · obtain ⟨e, hprep⟩ := writePrepare_throws hbad
    exact ⟨e, bind_of_error hprep⟩

/-! ## `write_prepare` and `write_commit` -/

theorem writeCommit_writes (n : Nat) :
    Writes (writeCommit n : EStateM Exn (Sock W R C) Unit) :=
  ⟨throws_zoom (Buffer.queueCommit_throws_only n), keeps_onWbuf _⟩

theorem writeCommit_appends (n : Nat) :
    Appends n (writeCommit n : EStateM Exn (Sock W R C) Unit) := by
  refine appends_of_prepared (fun {s} h hpos hfit => ?_)
    fun {s} hbad => writeCommit_throws hbad
  have hnone : s.wbuf.stored [] = s.wbuf := by
    rw [Buffer.stored, scatter_of_le (Nat.le_of_lt h.wbuf.tail_lt), blit_nil]
  refine ⟨[], Nat.zero_le _, ?_⟩
  rw [hnone]
  exact writeCommit_ok h hpos hfit

/-- Room that is asked for and committed without storing anything. -/
theorem prepareCommit_writes (m n : Nat) :
    Writes (do
      let _ ← writePrepare m
      writeCommit n : EStateM Exn (Sock W R C) Unit) where
  throws := throws_bind (throws_zoom (Buffer.queuePrep_throws_only _))
    fun _ => (writeCommit_writes n).throws
  quiet := keeps_bind (keeps_onWbuf _)
    fun _ => (writeCommit_writes n).quiet

theorem prepareCommit_appends (m n : Nat) :
    Appends n (do
      let _ ← writePrepare m
      writeCommit n : EStateM Exn (Sock W R C) Unit) := by
  intro s s' h hrun
  obtain ⟨ps, t, hprep, hrest⟩ := bind_eq_ok.mp hrun
  have hsame : t = s := by
    by_cases hfit : 0 < m ∧ m ≤ s.wbuf.space
    · cases (writePrepare_ok h hfit.1 hfit.2).symm.trans hprep
      rfl
    · obtain ⟨e, hthrow⟩ := writePrepare_throws
        (show m = 0 ∨ s.wbuf.space < m by omega)
      cases hthrow.symm.trans hprep
  subst hsame
  exact writeCommit_appends n _ _ h hrest

end Sock

end Mutated.Ports
