import Mutated.Ports.BufferCalls

/-!
# The circular buffer is a bounded FIFO list

The abstract model of `buffer<T, BUFSZ>` is a list of at most `BUFSZ` items:
new items go to its end, old ones leave from its front.  `Fifo.Returns` says
what each call does to that list and `Fifo.Impossible` when the list leaves
it nothing to do.  The theorem of this file is that after any sequence of
calls from the empty buffer the ring is that list, for every capacity,
element type and initial contents of the storage.

The calls that hand out an array (`queue`, `dequeue`) may hand out less than
was asked for, because the array has to be contiguous; the abstract model
leaves the length open and the ring decides it.
-/

namespace Mutated.Ports.Buffer

open Mutated.Verified.Circular
open Mutated.Verified.Exec

variable {T : Type} {BUFSZ : ℕ+}

/-! ## Calls -/

/-- A use of the buffer.  Those that queue items say what the caller stores
through the pointers it is given. -/
inductive Op (T : Type)
  /-- `queue_prep` for `xs ++ ys`, which is stored across the two arrays, and
  `queue_commit` for the items of `xs` only. -/
  | prepCommit (xs ys : List T)
  /-- `queue(len)`, with item `i` of the array set to `f i`. -/
  | queue (len : Nat) (f : Nat → T)
  | queueEmplace (x : T)
  | peek (len : Nat)
  | drop (len : Nat)
  | dequeue (len : Nat)
  | dequeueOne
  | last
  | clear

/-- The slots behind a pair of pointers, first array before second. -/
def spanCells (p1 : Nat) (p2 : Option Nat) (n1 n2 : Nat) : List Nat :=
  List.range' p1 n1 ++ (p2.map fun p2 => List.range' p2 n2).getD []

/-- Make the call; the slots it handed out, in order. -/
def Op.apply : Op T → EStateM Exn (Buffer T BUFSZ) (List Nat)
  | .prepCommit xs ys => do
      let (p1, p2, n1) ← queuePrep (xs ++ ys).length
      modify (fill p1 p2 n1 (xs ++ ys))
      queueCommit xs.length
      return spanCells p1 p2 n1 ((xs ++ ys).length - n1)
  | .queue len f => do
      let (p, n) ← Buffer.queue len
      modify (fill p none n ((List.range n).map f))
      return List.range' p n
  | .queueEmplace x => do
      let p ← Buffer.queueEmplace x
      return [p]
  | .peek len => do
      let (p1, p2, n1) ← Buffer.peek len
      return spanCells p1 p2 n1 (len - n1)
  | .drop len => do
      Buffer.drop len
      return []
  | .dequeue len => do
      let (p, n) ← Buffer.dequeue len
      return List.range' p n
  | .dequeueOne => do
      let p ← Buffer.dequeueOne
      return [p]
  | .last => do
      let p ← Buffer.last
      return [p]
  | .clear => do
      Buffer.clear
      return []

/-- The buffer after a sequence of calls.  A call that throws is followed by
the next one, on the buffer it left behind. -/
def run (ops : List (Op T)) (b : Buffer T BUFSZ) : Buffer T BUFSZ :=
  ops.foldl (fun b op => after (op.apply b)) b

/-! ## The abstract model -/

namespace Fifo

/-- What a call that returns does to the list `xs`: `out` are the items in
the slots it handed out, `xs'` is the list afterwards. -/
def Returns (xs : List T) : Op T → List T → List T → Prop
  | .prepCommit ys zs, out, xs' => out = ys ++ zs ∧ xs' = xs ++ ys
  | .queue len f, out, xs' =>
      ∃ n, 0 < n ∧ n ≤ len ∧ out = (List.range n).map f ∧ xs' = xs ++ out
  | .queueEmplace x, out, xs' => out = [x] ∧ xs' = xs ++ [x]
  | .peek len, out, xs' => out = xs.take len ∧ xs' = xs
  | .drop len, out, xs' => out = [] ∧ xs' = xs.drop len
  | .dequeue len, out, xs' =>
      ∃ n, 0 < n ∧ n ≤ len ∧ n ≤ xs.length ∧
        out = xs.take n ∧ xs' = xs.drop n
  | .dequeueOne, out, xs' => ∃ x, out = [x] ∧ xs = x :: xs'
  | .last, out, xs' => ∃ x, out = [x] ∧ xs.getLast? = some x ∧ xs' = xs
  | .clear, out, xs' => out = [] ∧ xs' = []

/-- When a list of capacity `cap` cannot do what is asked. -/
def Impossible (cap : Nat) (xs : List T) : Op T → Prop
  | .prepCommit ys zs => ys = [] ∨ cap < xs.length + (ys ++ zs).length
  | .queue len _ => len = 0 ∨ xs.length = cap
  | .queueEmplace _ => xs.length = cap
  | .peek len => len = 0 ∨ xs.length < len
  | .drop len => xs.length < len
  | .dequeue len => len = 0 ∨ xs = []
  | .dequeueOne => xs = []
  | .last => xs = []
  | .clear => False

/-- The calls whose slots are handed out to be stored to. -/
def Queues : Op T → Prop
  | .prepCommit .. | .queue .. | .queueEmplace _ => True
  | _ => False

end Fifo

/-- One call on the ring does what the list does: it throws exactly when the
list cannot do it, and then changes neither the pointers nor the items; it
queues only through distinct free slots of the array; and it leaves a
well-formed ring either way. -/
def Simulates (b : Buffer T BUFSZ) (op : Op T) : Prop :=
  match op.apply b with
  | .ok cs b' =>
      b'.WF ∧ ¬ Fifo.Impossible BUFSZ b.toList op ∧
        Fifo.Returns b.toList op (cs.map b'.buf) b'.toList ∧
        (Fifo.Queues op →
          cs.Nodup ∧ ∀ c ∈ cs, c < BUFSZ ∧ c ∉ b.slots)
  | .error _ b' =>
      b'.WF ∧ Fifo.Impossible BUFSZ b.toList op ∧
        b'.head = b.head ∧ b'.tail = b.tail ∧ b'.used = b.used ∧
        b'.toList = b.toList

/-! ## Slots -/

theorem map_range'_eq_block (mem : Nat → T) (p n : Nat) :
    (List.range' p n).map mem = block mem p n := by
  simp [block, List.range'_eq_map_range, Function.comp_def]

/-- The slots a pair of pointers of `queuePrep` covers are the ones from the
tail on. -/
theorem spanCells_prep {b : Buffer T BUFSZ} (h : b.WF) {len : Nat}
    (hfit : len ≤ b.space) :
    spanCells b.tail (if BUFSZ ≤ b.tail + len then some 0 else none)
      (min len (BUFSZ - b.tail)) (len - min len (BUFSZ - b.tail)) =
      cells BUFSZ b.tail len := by
  have htail := h.tail_lt
  have hspace : b.space = BUFSZ - b.used := rfl
  have hcells : cells BUFSZ b.tail len = window BUFSZ id b.tail len := rfl
  have hrange : ∀ p n, List.range' p n = block id p n := fun p n => by
    rw [← map_range'_eq_block, List.map_id]
  rw [hcells]
  by_cases hwrap : BUFSZ ≤ b.tail + len
  · rw [if_pos hwrap, Nat.min_eq_right (by omega),
      window_eq_append htail (by omega) hwrap]
    simp [spanCells, hrange]
  · rw [if_neg hwrap, Nat.min_eq_left (by omega),
      window_eq_block _ (by omega)]
    simp [spanCells, hrange]

/-- The slots from the tail on are free as long as they fit. -/
theorem cells_tail_free {b : Buffer T BUFSZ} (h : b.WF) {len : Nat}
    (hfit : len ≤ b.space) :
    (cells BUFSZ b.tail len).Nodup ∧
      ∀ c ∈ cells BUFSZ b.tail len, c < BUFSZ ∧ c ∉ b.slots := by
  have hused := h.used_le
  have hspace : b.space = BUFSZ - b.used := rfl
  refine ⟨nodup_cells (by omega), ?_⟩
  intro c hc
  simp only [cells, List.mem_map, List.mem_range] at hc
  obtain ⟨i, hi, rfl⟩ := hc
  refine ⟨Nat.mod_lt _ BUFSZ.pos, ?_⟩
  intro hmem
  simp only [slots, cells, List.mem_map, List.mem_range] at hmem
  obtain ⟨j, hj, heq⟩ := hmem
  rw [h.tail_eq, Nat.mod_add_mod, Nat.add_assoc] at heq
  exact add_mod_ne (by omega) (by omega) (by omega) heq

/-- A contiguous array that starts at the tail is a run of cells. -/
theorem range'_tail {b : Buffer T BUFSZ} {n : Nat}
    (hn : b.tail + n ≤ BUFSZ) :
    List.range' b.tail n = cells BUFSZ b.tail n := by
  have hblock := window_eq_block id hn
  have hcells : cells BUFSZ b.tail n = window BUFSZ id b.tail n := rfl
  rw [hcells, hblock, ← map_range'_eq_block, List.map_id]

/-! ## One call -/

theorem simulates_prepCommit {b : Buffer T BUFSZ} (h : b.WF)
    (xs ys : List T) : Simulates b (.prepCommit xs ys) := by
  have hspace : b.space = BUFSZ - b.used := rfl
  have hused := h.used_le
  have hlen : (xs ++ ys).length = xs.length + ys.length :=
    List.length_append
  by_cases hbad : (xs ++ ys).length = 0 ∨ b.space < (xs ++ ys).length
  · obtain ⟨e, hprep⟩ := queuePrep_throws hbad
    have happly : (Op.prepCommit xs ys).apply b = .error e b :=
      bind_of_error hprep
    simp only [Simulates, happly, Fifo.Impossible, length_toList, and_self,
      and_true]
    refine ⟨h, ?_⟩
    rcases hbad with h0 | hroom
    · exact .inl (List.eq_nil_of_length_eq_zero (by omega))
    · exact .inr (by omega)
  · have hfit : (xs ++ ys).length ≤ b.space := by omega
    have hprep := queuePrep_ok h (show 0 < (xs ++ ys).length by omega) hfit
    have hfill := fill_eq_stored h (Nat.le_refl (xs ++ ys).length)
    have hmodify : (modify (fill b.tail
          (if BUFSZ ≤ b.tail + (xs ++ ys).length then some 0 else none)
          (min (xs ++ ys).length (BUFSZ - b.tail)) (xs ++ ys)) :
          EStateM Exn (Buffer T BUFSZ) PUnit) b =
        .ok () (b.stored (xs ++ ys)) := by
      rw [modify_apply, hfill]
    by_cases hxs : xs = []
    · obtain ⟨e, hcommit⟩ := queueCommit_throws
        (show xs.length = 0 ∨ (b.stored (xs ++ ys)).space < xs.length from
          .inl (by simp [hxs]))
      have happly : (Op.prepCommit xs ys).apply b =
          .error e (b.stored (xs ++ ys)) :=
        (bind_of_ok hprep).trans
          ((bind_of_ok hmodify).trans (bind_of_error hcommit))
      simp only [Simulates, happly, Fifo.Impossible]
      exact ⟨h.stored _, .inl hxs, rfl, rfl, rfl, stored_toList h hfit⟩
    · have hpos : 0 < xs.length := List.length_pos_of_ne_nil hxs
      have hcommit := queueCommit_committed (h.stored (xs ++ ys)) hpos
        (by rw [stored_space]; omega)
      have happly : (Op.prepCommit xs ys).apply b =
          .ok (cells BUFSZ b.tail (xs ++ ys).length)
            ((b.stored (xs ++ ys)).committed xs.length) := by
        rw [← spanCells_prep h hfit]
        exact (bind_of_ok hprep).trans
          ((bind_of_ok hmodify).trans (bind_of_ok hcommit))
      have hread := scatter_window b.buf h.tail_lt
        (show (xs ++ ys).length ≤ BUFSZ by omega)
      simp only [Simulates, happly, Fifo.Impossible, Fifo.Returns,
        length_toList, map_cells, committed_buf]
      refine ⟨(h.stored _).committed (by rw [stored_space]; omega),
        by rintro (h0 | hroom) <;> [exact hxs h0; omega], ⟨hread, ?_⟩,
        fun _ => cells_tail_free h hfit⟩
      rw [stored_committed_toList h hfit (by omega), List.take_left]

theorem simulates_queue {b : Buffer T BUFSZ} (h : b.WF) (len : Nat)
    (f : Nat → T) : Simulates b (.queue len f) := by
  have hspace : b.space = BUFSZ - b.used := rfl
  have hused := h.used_le
  have htail := h.tail_lt
  by_cases hbad : len = 0 ∨ b.space = 0
  · obtain ⟨e, hqueue⟩ := queue_throws hbad
    have happly : (Op.queue len f).apply b = .error e b :=
      bind_of_error hqueue
    simp only [Simulates, happly, Fifo.Impossible, length_toList, and_self,
      and_true]
    exact ⟨h, by omega⟩
  · have hqueue := queue_ok h (show 0 < len by omega) (by omega)
    have hn : b.queueLen len ≤ len ∧ b.queueLen len ≤ b.space ∧
        b.tail + b.queueLen len ≤ BUFSZ ∧ 0 < b.queueLen len := by
      unfold queueLen
      omega
    obtain ⟨hlen, hroom, hend, hpos⟩ := hn
    generalize b.queueLen len = n at hqueue hlen hroom hend hpos
    have hxs : ((List.range n).map f).length = n := by simp
    have hfill : fill b.tail none n ((List.range n).map f) (b.committed n) =
        (b.stored ((List.range n).map f)).committed n := by
      simp only [stored, committed, fill]
      rw [scatter_of_le (by omega)]
    have happly : (Op.queue len f).apply b =
        .ok (cells BUFSZ b.tail n)
          ((b.stored ((List.range n).map f)).committed n) := by
      rw [← range'_tail hend, ← hfill]
      exact bind_of_ok hqueue
    have hread := scatter_window b.buf htail
      (show ((List.range n).map f).length ≤ BUFSZ by omega)
    rw [hxs] at hread
    simp only [Simulates, happly, Fifo.Impossible, Fifo.Returns,
      length_toList, map_cells, committed_buf]
    refine ⟨(h.stored _).committed hroom, by omega,
      ⟨n, hpos, hlen, hread, ?_⟩, fun _ => cells_tail_free h hroom⟩
    rw [stored_committed_toList h (by omega) (by omega),
      List.take_of_length_le (by omega)]
    simp only [stored, hread]

theorem simulates_queueEmplace {b : Buffer T BUFSZ} (h : b.WF) (x : T) :
    Simulates b (.queueEmplace x) := by
  have hspace : b.space = BUFSZ - b.used := rfl
  have hused := h.used_le
  have htail := h.tail_lt
  by_cases hfull : b.space = 0
  · obtain ⟨e, hemplace⟩ := queueEmplace_throws hfull x
    have happly : (Op.queueEmplace x).apply b = .error e b :=
      bind_of_error hemplace
    simp only [Simulates, happly, Fifo.Impossible, length_toList, and_self,
      and_true]
    exact ⟨h, by omega⟩
  · have hemplace := queueEmplace_ok h (by omega) x
    have hcell : [b.tail] = cells BUFSZ b.tail 1 := by
      simp [cells, Nat.mod_eq_of_lt htail]
    have happly : (Op.queueEmplace x).apply b =
        .ok (cells BUFSZ b.tail 1) ((b.stored [x]).committed 1) := by
      rw [← hcell]
      exact bind_of_ok hemplace
    have hread := scatter_window b.buf htail
      (show [x].length ≤ BUFSZ by simp only [List.length_singleton]; omega)
    simp only [List.length_singleton] at hread
    simp only [Simulates, happly, Fifo.Impossible, Fifo.Returns,
      length_toList, map_cells, committed_buf]
    refine ⟨(h.stored _).committed (by rw [stored_space]; omega), by omega,
      ⟨hread, ?_⟩, fun _ => cells_tail_free h (by omega)⟩
    rw [stored_committed_toList h (by simp only [List.length_singleton]; omega)
      (by simp)]
    rfl

theorem simulates_peek {b : Buffer T BUFSZ} (h : b.WF) (len : Nat) :
    Simulates b (.peek len) := by
  by_cases hbad : len = 0 ∨ b.used < len
  · obtain ⟨e, hpeek⟩ := peek_throws hbad
    have happly : (Op.peek len : Op T).apply b = .error e b :=
      bind_of_error hpeek
    simp only [Simulates, happly, Fifo.Impossible, length_toList, and_self,
      and_true]
    exact ⟨h, hbad⟩
  · have hpeek := peek_ok h (show 0 < len by omega) (by omega)
    have hjoin := joinSegs_peek h (show len ≤ b.used by omega)
    have happly : (Op.peek len : Op T).apply b =
        .ok (spanCells b.head
          (if BUFSZ < b.head + len then some 0 else none)
          (min len (BUFSZ - b.head)) (len - min len (BUFSZ - b.head))) b :=
      bind_of_ok hpeek
    have hdata : (spanCells b.head
          (if BUFSZ < b.head + len then some 0 else none)
          (min len (BUFSZ - b.head)) (len - min len (BUFSZ - b.head))).map
          b.buf = b.toList.take len := by
      rw [← hjoin]
      by_cases hwrap : BUFSZ < b.head + len <;>
        simp [spanCells, joinSegs, segments, hwrap, map_range'_eq_block]
    simp only [Simulates, happly, Fifo.Impossible, Fifo.Returns,
      length_toList]
    exact ⟨h, hbad, ⟨hdata, trivial⟩, False.elim⟩

theorem simulates_drop {b : Buffer T BUFSZ} (h : b.WF) (len : Nat) :
    Simulates b (.drop len) := by
  by_cases hbad : b.used < len
  · obtain ⟨e, hdrop⟩ := drop_throws hbad
    have happly : (Op.drop len : Op T).apply b = .error e b :=
      bind_of_error hdrop
    simp only [Simulates, happly, Fifo.Impossible, length_toList, and_self,
      and_true]
    exact ⟨h, hbad⟩
  · have hdrop := drop_dropped h (show len ≤ b.used by omega)
    have happly : (Op.drop len : Op T).apply b = .ok [] (b.dropped len) :=
      bind_of_ok hdrop
    simp only [Simulates, happly, Fifo.Impossible, Fifo.Returns,
      length_toList]
    exact ⟨h.dropped (by omega), hbad, ⟨rfl, dropped_toList (by omega)⟩,
      False.elim⟩

theorem simulates_dequeue {b : Buffer T BUFSZ} (h : b.WF) (len : Nat) :
    Simulates b (.dequeue len) := by
  have hhead := h.head_lt
  by_cases hbad : len = 0 ∨ b.used = 0
  · obtain ⟨e, hdequeue⟩ := dequeue_throws hbad
    have happly : (Op.dequeue len : Op T).apply b = .error e b :=
      bind_of_error hdequeue
    simp only [Simulates, happly, Fifo.Impossible, toList_eq_nil, and_self,
      and_true]
    exact ⟨h, hbad⟩
  · have hdequeue := dequeue_ok h (show 0 < len by omega) (by omega)
    have hblock := block_dequeue h len
    have hn : b.dequeueLen len ≤ len ∧ b.dequeueLen len ≤ b.used ∧
        0 < b.dequeueLen len := by
      unfold dequeueLen
      omega
    obtain ⟨hlen, hitems, hpos⟩ := hn
    generalize b.dequeueLen len = n at hdequeue hblock hlen hitems hpos
    have happly : (Op.dequeue len : Op T).apply b =
        .ok (List.range' b.head n) (b.dropped n) :=
      bind_of_ok hdequeue
    simp only [Simulates, happly, Fifo.Impossible, Fifo.Returns,
      length_toList, toList_eq_nil, dropped_buf, map_range'_eq_block]
    exact ⟨h.dropped hitems, hbad,
      ⟨n, hpos, hlen, hitems, hblock, dropped_toList hitems⟩, False.elim⟩

theorem simulates_dequeueOne {b : Buffer T BUFSZ} (h : b.WF) :
    Simulates b .dequeueOne := by
  by_cases hempty : b.used = 0
  · obtain ⟨e, hdequeue⟩ := dequeueOne_throws hempty
    have happly : (Op.dequeueOne : Op T).apply b = .error e b :=
      bind_of_error hdequeue
    simp only [Simulates, happly, Fifo.Impossible, toList_eq_nil, and_self,
      and_true]
    exact ⟨h, hempty⟩
  · have hdequeue := dequeueOne_ok h (by omega)
    have happly : (Op.dequeueOne : Op T).apply b =
        .ok [b.head] (b.dropped 1) := bind_of_ok hdequeue
    obtain ⟨n, hn⟩ : ∃ n, b.used = n + 1 := ⟨b.used - 1, by omega⟩
    have hlist : b.toList = b.buf b.head :: (b.dropped 1).toList := by
      rw [dropped_toList (by omega), toList, hn, window_succ,
        Nat.mod_eq_of_lt h.head_lt, List.drop_one, List.tail_cons]
    simp only [Simulates, happly, Fifo.Impossible, Fifo.Returns,
      toList_eq_nil, dropped_buf, List.map_cons, List.map_nil]
    exact ⟨h.dropped (by omega), hempty, ⟨_, rfl, hlist⟩, False.elim⟩

theorem simulates_last {b : Buffer T BUFSZ} (h : b.WF) :
    Simulates b .last := by
  by_cases hempty : b.used = 0
  · have happly : (Op.last : Op T).apply b = .error
        (.systemError ENOSPC "buffer::last: buffer empty") b := by
      have hlast : Buffer.last b = .error
          (.systemError ENOSPC "buffer::last: buffer empty") b := by
        unfold Buffer.last
        rw [if_pos hempty]
      exact bind_of_error hlast
    simp only [Simulates, happly, Fifo.Impossible, toList_eq_nil, and_self,
      and_true]
    exact ⟨h, hempty⟩
  · have hlast := last_ok (b := b) (by omega)
    have happly : (Op.last : Op T).apply b =
        .ok [if b.tail = 0 then (BUFSZ : Nat) - 1 else b.tail - 1] b :=
      bind_of_ok hlast
    simp only [Simulates, happly, Fifo.Impossible, Fifo.Returns,
      toList_eq_nil, List.map_cons, List.map_nil]
    exact ⟨h, hempty, ⟨_, rfl, getLast_toList h (by omega), trivial⟩,
      False.elim⟩

theorem simulates_clear {b : Buffer T BUFSZ} (h : b.WF) :
    Simulates b .clear := by
  have happly : (Op.clear : Op T).apply b = .ok [] (b.dropped b.used) :=
    bind_of_ok (clear_ok h)
  simp only [Simulates, happly, Fifo.Impossible, Fifo.Returns]
  refine ⟨h.dropped (Nat.le_refl _), not_false, ⟨rfl, ?_⟩, False.elim⟩
  rw [toList_eq_nil, dropped_used, Nat.sub_self]

/-- **Step lemma**: on a well-formed ring every call does what the list
does. -/
theorem simulates_of_wf {b : Buffer T BUFSZ} (h : b.WF) (op : Op T) :
    Simulates b op := by
  cases op with
  | prepCommit xs ys => exact simulates_prepCommit h xs ys
  | queue len f => exact simulates_queue h len f
  | queueEmplace x => exact simulates_queueEmplace h x
  | peek len => exact simulates_peek h len
  | drop len => exact simulates_drop h len
  | dequeue len => exact simulates_dequeue h len
  | dequeueOne => exact simulates_dequeueOne h
  | last => exact simulates_last h
  | clear => exact simulates_clear h

/-! ## Whole runs -/

theorem wf_apply {b : Buffer T BUFSZ} (h : b.WF) (op : Op T) :
    (after (op.apply b)).WF := by
  have hsim := simulates_of_wf h op
  unfold Simulates at hsim
  cases happly : op.apply b with
  | ok cs b' =>
      rw [happly] at hsim
      exact hsim.1
  | error e b' =>
      rw [happly] at hsim
      exact hsim.1

theorem wf_run (ops : List (Op T)) :
    ∀ {b : Buffer T BUFSZ}, b.WF → (run ops b).WF := by
  induction ops with
  | nil => exact fun h => h
  | cons op ops ih => exact fun h => ih (wf_apply h op)

/-- **The ring simulates a bounded FIFO list**: after any calls from the
empty buffer, whether they returned or threw, the pointers are inside the
array and agree with the item count, and every further call does what the
list of items does. -/
theorem run_simulates_fifo (mem : Nat → T) (ops : List (Op T)) :
    let b : Buffer T BUFSZ := run ops (init mem)
    b.head < BUFSZ ∧ b.tail < BUFSZ ∧ b.used ≤ BUFSZ ∧
      b.tail = (b.head + b.used) % BUFSZ ∧
      b.items + b.space = BUFSZ ∧
      b.toList.length = b.items ∧
      ∀ op, Simulates b op := by
  intro b
  have hwf : b.WF := wf_run ops (init_wf mem)
  have hused := hwf.used_le
  refine ⟨hwf.head_lt, hwf.tail_lt, hwf.used_le, hwf.tail_eq, ?_,
    length_toList b, simulates_of_wf hwf⟩
  unfold items space
  omega

end Mutated.Ports.Buffer
