import Mutated.Ports.Buffer

/-!
# The calls of a buffer

What each member function does to the pointers, and to the list the buffer
stands for; what the functions that are built from others do; and what they
throw.
-/

namespace Mutated.Ports

open Mutated.Verified.Circular
open Mutated.Verified.Exec

namespace Buffer

variable {T : Type} {BUFSZ : ℕ+}

/-! ## What each call does -/

/-- **`queue_prep`** hands out the free slots from the tail on. -/
theorem queuePrep_ok {b : Buffer T BUFSZ} (h : b.WF) {len : Nat}
    (hpos : 0 < len) (hfit : len ≤ b.space) :
    queuePrep len b = .ok
      (b.tail, if BUFSZ ≤ b.tail + len then some 0 else none,
        min len (BUFSZ - b.tail)) b := by
  have hhead := h.head_lt
  have htail := h.tail_lt
  have hused := h.used_le
  have hlay := h.layout
  have hcap : b.bufcap = BUFSZ := rfl
  have hspace : b.space = BUFSZ - b.used := rfl
  have hlen : ¬ len = 0 := by omega
  have hfull : ¬ b.used = BUFSZ := by omega
  have hroom : ¬ b.space < len := by omega
  simp only [queuePrep, hlen, hfull, hroom, if_false]
  by_cases hwrap : BUFSZ ≤ b.tail + len
  · have hcond : b.head ≤ b.tail ∧ b.bufcap - b.tail ≤ len := by omega
    rw [if_pos hcond, if_pos hwrap, Nat.min_eq_right (by omega), hcap]
  · have hcond : ¬ (b.head ≤ b.tail ∧ b.bufcap - b.tail ≤ len) := by omega
    rw [if_neg hcond, if_neg hwrap, Nat.min_eq_left (by omega)]

theorem queuePrep_throws {b : Buffer T BUFSZ} {len : Nat}
    (hbad : len = 0 ∨ b.space < len) : ∃ e, queuePrep len b = .error e b := by
  unfold queuePrep
  by_cases h0 : len = 0
  · rw [if_pos h0]; exact ⟨_, rfl⟩
  · have hroom : b.space < len := hbad.resolve_left h0
    rw [if_neg h0, if_pos hroom]
    split <;> exact ⟨_, rfl⟩

theorem queueCommit_ok {b : Buffer T BUFSZ} (h : b.WF) {len : Nat}
    (hpos : 0 < len) (hfit : len ≤ b.space) :
    queueCommit len b = .ok ()
      { b with tail := (b.tail + len) % BUFSZ, used := b.used + len } := by
  have hhead := h.head_lt
  have htail := h.tail_lt
  have hlay := h.layout
  have hused := h.used_le
  have hcap : b.bufcap = BUFSZ := rfl
  have hspace : b.space = BUFSZ - b.used := rfl
  have hlen : ¬ len = 0 := by omega
  have hfull : ¬ b.used = BUFSZ := by omega
  have hroom : ¬ b.space < len := by omega
  simp only [queueCommit, hlen, hfull, hroom, if_false]
  rcases wrap_cases (show b.tail + len < 2 * (BUFSZ : Nat) by omega) with
    ⟨hlt, hmod⟩ | ⟨hge, hmod⟩
  · rw [hmod]
    have hin : len < b.bufcap - b.tail := by omega
    by_cases hle : b.head ≤ b.tail
    · rw [if_pos hle, if_pos hin]
    · rw [if_neg hle]
  · have hle : b.head ≤ b.tail := by omega
    have hout : ¬ len < b.bufcap - b.tail := by omega
    have hoff : len - (b.bufcap - b.tail) = b.tail + len - BUFSZ := by omega
    rw [if_pos hle, if_neg hout, hmod, hoff]

theorem queueCommit_throws {b : Buffer T BUFSZ} {len : Nat}
    (hbad : len = 0 ∨ b.space < len) :
    ∃ e, queueCommit len b = .error e b := by
  unfold queueCommit
  by_cases h0 : len = 0
  · rw [if_pos h0]; exact ⟨_, rfl⟩
  · have hroom : b.space < len := hbad.resolve_left h0
    rw [if_neg h0, if_pos hroom]
    split <;> exact ⟨_, rfl⟩

/-- **`peek`** hands out the occupied slots from the head on. -/
theorem peek_ok {b : Buffer T BUFSZ} (h : b.WF) {len : Nat}
    (hpos : 0 < len) (hfit : len ≤ b.used) :
    peek len b = .ok
      (b.head, if BUFSZ < b.head + len then some 0 else none,
        min len (BUFSZ - b.head)) b := by
  have hhead := h.head_lt
  have hused := h.used_le
  have hlay := h.layout
  have hlen : ¬ len = 0 := by omega
  have hempty : ¬ b.used = 0 := by omega
  have henough : ¬ b.items < len := by unfold items; omega
  have hcap : b.bufcap = BUFSZ := rfl
  simp only [peek, hlen, hempty, henough, if_false]
  by_cases hwrap : BUFSZ < b.head + len
  · have hcond : b.tail ≤ b.head ∧ b.bufcap - b.head < len := by omega
    rw [if_pos hcond, if_pos hwrap, Nat.min_eq_right (by omega), hcap]
  · have hcond : ¬ (b.tail ≤ b.head ∧ b.bufcap - b.head < len) := by omega
    rw [if_neg hcond, if_neg hwrap, Nat.min_eq_left (by omega)]

theorem peek_throws {b : Buffer T BUFSZ} {len : Nat}
    (hbad : len = 0 ∨ b.used < len) : ∃ e, peek len b = .error e b := by
  unfold peek
  by_cases h0 : len = 0
  · rw [if_pos h0]; exact ⟨_, rfl⟩
  · have hfew : b.items < len := hbad.resolve_left h0
    rw [if_neg h0, if_pos hfew]
    split <;> exact ⟨_, rfl⟩

theorem drop_ok {b : Buffer T BUFSZ} (h : b.WF) {len : Nat}
    (hfit : len ≤ b.used) :
    drop len b = .ok ()
      { b with head := (b.head + len) % BUFSZ, used := b.used - len } := by
  have hhead := h.head_lt
  have hused := h.used_le
  have hlay := h.layout
  unfold drop
  by_cases h0 : len = 0
  · subst h0
    simp [Nat.mod_eq_of_lt hhead]
  · have hempty : ¬ b.used = 0 := by omega
    have henough : ¬ b.items < len := by unfold items; omega
    have hcap : b.bufcap = BUFSZ := rfl
    simp only [h0, hempty, henough, if_false]
    rcases wrap_cases (show b.head + len < 2 * (BUFSZ : Nat) by omega) with
      ⟨hlt, hmod⟩ | ⟨hge, hmod⟩
    · have hcond : ¬ (b.tail ≤ b.head ∧ b.bufcap - b.head ≤ len) := by omega
      rw [if_neg hcond, hmod]
    · have hcond : b.tail ≤ b.head ∧ b.bufcap - b.head ≤ len := by omega
      have hoff : len - (b.bufcap - b.head) = b.head + len - BUFSZ := by omega
      rw [if_pos hcond, hmod, hoff]

theorem drop_throws {b : Buffer T BUFSZ} {len : Nat} (hbad : b.used < len) :
    ∃ e, drop len b = .error e b := by
  have hfew : b.items < len := hbad
  have h0 : ¬ len = 0 := by omega
  unfold drop
  rw [if_neg h0, if_pos hfew]
  split <;> exact ⟨_, rfl⟩

/-! ## What each call does to the list -/

/-- The buffer after `queue_commit`. -/
def committed (b : Buffer T BUFSZ) (len : Nat) : Buffer T BUFSZ :=
  { b with tail := (b.tail + len) % BUFSZ, used := b.used + len }

/-- The buffer after `drop`. -/
def dropped (b : Buffer T BUFSZ) (len : Nat) : Buffer T BUFSZ :=
  { b with head := (b.head + len) % BUFSZ, used := b.used - len }

/-- The buffer after `xs` was stored over the free slots from the tail on. -/
def stored (b : Buffer T BUFSZ) (xs : List T) : Buffer T BUFSZ :=
  { b with buf := scatter BUFSZ b.buf b.tail xs }

theorem WF.committed {b : Buffer T BUFSZ} (h : b.WF) {len : Nat}
    (hfit : len ≤ b.space) : (b.committed len).WF where
  head_lt := h.head_lt
  used_le := by
    have hspace : b.space = BUFSZ - b.used := rfl
    have hused := h.used_le
    simp only [Buffer.committed]
    omega
  tail_eq := by
    simp only [Buffer.committed]
    rw [h.tail_eq, Nat.mod_add_mod, Nat.add_assoc]

theorem WF.dropped {b : Buffer T BUFSZ} (h : b.WF) {len : Nat}
    (hfit : len ≤ b.used) : (b.dropped len).WF where
  head_lt := Nat.mod_lt _ BUFSZ.pos
  used_le := by
    have hused := h.used_le
    simp only [Buffer.dropped]
    omega
  tail_eq := by
    simp only [Buffer.dropped]
    rw [h.tail_eq, Nat.mod_add_mod]
    congr 1
    omega

theorem WF.stored {b : Buffer T BUFSZ} (h : b.WF) (xs : List T) :
    (b.stored xs).WF := ⟨h.head_lt, h.used_le, h.tail_eq⟩

@[simp] theorem stored_used (b : Buffer T BUFSZ) (xs : List T) :
    (b.stored xs).used = b.used := rfl

@[simp] theorem stored_space (b : Buffer T BUFSZ) (xs : List T) :
    (b.stored xs).space = b.space := rfl

@[simp] theorem stored_tail (b : Buffer T BUFSZ) (xs : List T) :
    (b.stored xs).tail = b.tail := rfl

@[simp] theorem stored_head (b : Buffer T BUFSZ) (xs : List T) :
    (b.stored xs).head = b.head := rfl

@[simp] theorem committed_used (b : Buffer T BUFSZ) (len : Nat) :
    (b.committed len).used = b.used + len := rfl

@[simp] theorem committed_buf (b : Buffer T BUFSZ) (len : Nat) :
    (b.committed len).buf = b.buf := rfl

@[simp] theorem committed_head (b : Buffer T BUFSZ) (len : Nat) :
    (b.committed len).head = b.head := rfl

@[simp] theorem dropped_used (b : Buffer T BUFSZ) (len : Nat) :
    (b.dropped len).used = b.used - len := rfl

@[simp] theorem dropped_buf (b : Buffer T BUFSZ) (len : Nat) :
    (b.dropped len).buf = b.buf := rfl

@[simp] theorem dropped_head (b : Buffer T BUFSZ) (len : Nat) :
    (b.dropped len).head = (b.head + len) % BUFSZ := rfl

@[simp] theorem dropped_tail (b : Buffer T BUFSZ) (len : Nat) :
    (b.dropped len).tail = b.tail := rfl

theorem queueCommit_committed {b : Buffer T BUFSZ} (h : b.WF) {len : Nat}
    (hpos : 0 < len) (hfit : len ≤ b.space) :
    queueCommit len b = .ok () (b.committed len) :=
  queueCommit_ok h hpos hfit

theorem drop_dropped {b : Buffer T BUFSZ} (h : b.WF) {len : Nat}
    (hfit : len ≤ b.used) : drop len b = .ok () (b.dropped len) :=
  drop_ok h hfit

/-- Storing through the pointers of `queuePrep` fills the slots from the tail
on, even when fewer items are stored than were asked for. -/
theorem fill_eq_stored {b : Buffer T BUFSZ} (h : b.WF) {len : Nat}
    {xs : List T} (hxs : xs.length ≤ len) :
    b.fill b.tail (if BUFSZ ≤ b.tail + len then some 0 else none)
      (min len (BUFSZ - b.tail)) xs = b.stored xs := by
  have htail := h.tail_lt
  by_cases hwrap : BUFSZ ≤ b.tail + len
  · rw [if_pos hwrap, Nat.min_eq_right (by omega)]
    rfl
  · rw [if_neg hwrap]
    simp only [fill, stored]
    rw [scatter_of_le (by omega)]

/-- The free slots are stored over without disturbing the items. -/
theorem stored_toList {b : Buffer T BUFSZ} (h : b.WF) {xs : List T}
    (hfit : xs.length ≤ b.space) : (b.stored xs).toList = b.toList := by
  have hused := h.used_le
  have hspace : b.space = BUFSZ - b.used := rfl
  simp only [toList, stored]
  rw [h.tail_eq]
  exact window_scatter_of_disjoint BUFSZ.pos (by omega)

/-- A commit appends whatever the slots from the tail on hold. -/
theorem committed_toList {b : Buffer T BUFSZ} (h : b.WF) (len : Nat) :
    (b.committed len).toList =
      b.toList ++ window BUFSZ b.buf b.tail len := by
  simp only [toList, committed]
  rw [window_add, h.tail_eq, window_mod]

/-- **Committing appends** exactly the first items stored. -/
theorem stored_committed_toList {b : Buffer T BUFSZ} (h : b.WF)
    {xs : List T} (hfit : xs.length ≤ b.space) {len : Nat}
    (hlen : len ≤ xs.length) :
    ((b.stored xs).committed len).toList = b.toList ++ xs.take len := by
  have hspace : b.space = BUFSZ - b.used := rfl
  have hread := scatter_window b.buf h.tail_lt
    (show xs.length ≤ BUFSZ by omega)
  have htake : (window BUFSZ (scatter BUFSZ b.buf b.tail xs) b.tail
      xs.length).take len =
      window BUFSZ (scatter BUFSZ b.buf b.tail xs) b.tail len :=
    take_window hlen
  rw [committed_toList (h.stored xs), stored_toList h hfit]
  simp only [stored]
  rw [← htake, hread]

theorem dropped_toList {b : Buffer T BUFSZ} {len : Nat}
    (hfit : len ≤ b.used) : (b.dropped len).toList = b.toList.drop len := by
  simp only [toList, dropped]
  rw [drop_window hfit, window_mod]

/-- Writing through the pointer to the `k`-th item sets that item. -/
theorem blit_toList {b : Buffer T BUFSZ} (h : b.WF) {k : Nat}
    (hk : k < b.used) (x : T) :
    ({ b with buf := blit b.buf ((b.head + k) % BUFSZ) [x] } :
      Buffer T BUFSZ).toList = b.toList.set k x :=
  window_blit_singleton h.used_le hk x

theorem getElem?_toList (b : Buffer T BUFSZ) {k : Nat} (hk : k < b.used) :
    b.toList[k]? = some (b.buf ((b.head + k) % BUFSZ)) := by
  simp [toList, window, List.getElem?_map, List.getElem?_range hk]

theorem drop_slots {b : Buffer T BUFSZ} {k : Nat} (hk : k < b.used) :
    b.slots.drop k = (b.head + k) % BUFSZ :: b.slots.drop (k + 1) := by
  have hlt : k < b.slots.length := by
    rw [slots, length_cells]
    exact hk
  rw [List.drop_eq_getElem_cons hlt]
  simp [slots, cells]

/-- The two segments `peek` hands out hold the first `len` items. -/
theorem joinSegs_peek {b : Buffer T BUFSZ} (h : b.WF) {len : Nat}
    (hfit : len ≤ b.used) :
    joinSegs (b.segments b.head
      (if BUFSZ < b.head + len then some 0 else none)
      (min len (BUFSZ - b.head)) (len - min len (BUFSZ - b.head))) =
      b.toList.take len := by
  have hhead := h.head_lt
  have hused := h.used_le
  rw [toList, take_window hfit]
  by_cases hwrap : BUFSZ < b.head + len
  · rw [if_pos hwrap, Nat.min_eq_right (by omega),
      window_eq_append hhead (by omega) (by omega)]
    rfl
  · rw [if_neg hwrap, Nat.min_eq_left (by omega),
      window_eq_block _ (by omega)]
    simp [joinSegs, segments]

/-! ## The calls built from the others -/

/-- The number of items `queue` makes room for. -/
def queueLen (b : Buffer T BUFSZ) (len : Nat) : Nat :=
  min (min len b.space) (BUFSZ - b.tail)

theorem queue_ok {b : Buffer T BUFSZ} (h : b.WF) {len : Nat}
    (hpos : 0 < len) (hroom : 0 < b.space) :
    queue len b = .ok (b.tail, b.queueLen len)
      (b.committed (b.queueLen len)) := by
  have htail := h.tail_lt
  have hcut : (if b.space < len ∧ 0 < b.space then b.space else len) =
      min len b.space := by
    split <;> omega
  have hprep := queuePrep_ok h (show 0 < min len b.space by omega) (by omega)
  have hcommit := queueCommit_committed h
    (show 0 < b.queueLen len by unfold queueLen; omega)
    (by unfold queueLen; omega)
  rw [queue_eq, hcut, bind_of_ok hprep]
  exact bind_of_ok hcommit

theorem queue_throws {b : Buffer T BUFSZ} {len : Nat}
    (hbad : len = 0 ∨ b.space = 0) : ∃ e, queue len b = .error e b := by
  have hcut : (if b.space < len ∧ 0 < b.space then b.space else len) = len := by
    split <;> omega
  obtain ⟨e, hprep⟩ := queuePrep_throws
    (show len = 0 ∨ b.space < len by omega)
  refine ⟨e, ?_⟩
  rw [queue_eq, hcut]
  exact bind_of_error hprep

theorem queueEmplace_ok {b : Buffer T BUFSZ} (h : b.WF) (hroom : 0 < b.space)
    (x : T) :
    queueEmplace x b = .ok b.tail ((b.stored [x]).committed 1) := by
  have htail := h.tail_lt
  have hlen : b.queueLen 1 = 1 := by unfold queueLen; omega
  have hqueue := queue_ok h Nat.one_pos hroom
  rw [hlen] at hqueue
  have hblit : scatter BUFSZ b.buf b.tail [x] = blit b.buf b.tail [x] :=
    scatter_of_le (by simp only [List.length_singleton]; omega)
  rw [queueEmplace, bind_of_ok hqueue]
  simp only [stored, committed, hblit]
  rfl

theorem queueEmplace_throws {b : Buffer T BUFSZ} (hfull : b.space = 0)
    (x : T) : ∃ e, queueEmplace x b = .error e b := by
  obtain ⟨e, hqueue⟩ := queue_throws
    (show 1 = 0 ∨ b.space = 0 from .inr hfull)
  exact ⟨e, bind_of_error hqueue⟩

/-- What a full buffer says. -/
theorem queueEmplace_full {b : Buffer T BUFSZ} (hfull : b.used = BUFSZ)
    (x : T) : queueEmplace x b =
      .error (.systemError ENOSPC "buffer::queue_prep: buffer full") b := by
  have hcut : (if b.space < 1 ∧ 0 < b.space then b.space else 1) = 1 := by
    split <;> omega
  have hprep : queuePrep 1 b =
      .error (.systemError ENOSPC "buffer::queue_prep: buffer full") b := by
    rw [queuePrep, if_neg Nat.one_ne_zero, if_pos hfull]
  have hqueue : queue 1 b =
      .error (.systemError ENOSPC "buffer::queue_prep: buffer full") b := by
    rw [queue_eq, hcut]
    exact bind_of_error hprep
  exact bind_of_error hqueue

theorem last_ok {b : Buffer T BUFSZ} (hitems : 0 < b.used) :
    last b = .ok (if b.tail = 0 then BUFSZ - 1 else b.tail - 1) b := by
  have hempty : ¬ b.used = 0 := by omega
  unfold last
  rw [if_neg hempty]
  split <;> rfl

/-- `last` points at the newest item. -/
theorem getLast_toList {b : Buffer T BUFSZ} (h : b.WF) (hitems : 0 < b.used) :
    b.toList.getLast? =
      some (b.buf (if b.tail = 0 then BUFSZ - 1 else b.tail - 1)) := by
  have hhead := h.head_lt
  have hused := h.used_le
  have hcap := BUFSZ.pos
  have hlay := h.layout
  obtain ⟨n, hn⟩ : ∃ n, b.used = n + 1 := ⟨b.used - 1, by omega⟩
  have hslot : (b.head + n) % BUFSZ =
      if b.tail = 0 then (BUFSZ : Nat) - 1 else b.tail - 1 := by
    rcases wrap_cases (show b.head + n < 2 * (BUFSZ : Nat) by omega) with
      ⟨hlt, hmod⟩ | ⟨hge, hmod⟩ <;> rw [hmod] <;> split <;> omega
  rw [← hslot, toList, hn, window_add]
  simp [window]

/-- The number of items `dequeue` removes. -/
def dequeueLen (b : Buffer T BUFSZ) (len : Nat) : Nat :=
  min (min len b.used) (BUFSZ - b.head)

theorem dequeue_ok {b : Buffer T BUFSZ} (h : b.WF) {len : Nat}
    (hpos : 0 < len) (hitems : 0 < b.used) :
    dequeue len b = .ok (b.head, b.dequeueLen len)
      (b.dropped (b.dequeueLen len)) := by
  have hhead := h.head_lt
  have hcut : (if b.used < len then b.used else len) = min len b.used := by
    split <;> omega
  have hpeek := peek_ok h (show 0 < min len b.used by omega) (by omega)
  have hdrop := drop_dropped h
    (show b.dequeueLen len ≤ b.used by unfold dequeueLen; omega)
  rw [dequeue_eq, hcut, bind_of_ok hpeek]
  exact bind_of_ok hdrop

theorem dequeue_throws {b : Buffer T BUFSZ} {len : Nat}
    (hbad : len = 0 ∨ b.used = 0) : ∃ e, dequeue len b = .error e b := by
  have hcut : (if b.used < len then b.used else len) = 0 := by
    split <;> omega
  obtain ⟨e, hpeek⟩ := peek_throws
    (show 0 = 0 ∨ b.used < 0 from .inl rfl)
  refine ⟨e, ?_⟩
  rw [dequeue_eq, hcut]
  exact bind_of_error hpeek

theorem dequeueOne_ok {b : Buffer T BUFSZ} (h : b.WF) (hitems : 0 < b.used) :
    dequeueOne b = .ok b.head (b.dropped 1) := by
  have hhead := h.head_lt
  have hlen : b.dequeueLen 1 = 1 := by unfold dequeueLen; omega
  have hdequeue := dequeue_ok h Nat.one_pos hitems
  rw [hlen] at hdequeue
  exact bind_of_ok hdequeue

theorem dequeueOne_throws {b : Buffer T BUFSZ} (hempty : b.used = 0) :
    ∃ e, dequeueOne b = .error e b := by
  obtain ⟨e, hdequeue⟩ := dequeue_throws
    (show 1 = 0 ∨ b.used = 0 from .inr hempty)
  exact ⟨e, bind_of_error hdequeue⟩

/-- The array `dequeue` hands out holds the items it removed. -/
theorem block_dequeue {b : Buffer T BUFSZ} (h : b.WF) (len : Nat) :
    block b.buf b.head (b.dequeueLen len) =
      b.toList.take (b.dequeueLen len) := by
  have hhead := h.head_lt
  rw [toList, take_window (by unfold dequeueLen; omega),
    window_eq_block _ (by unfold dequeueLen; omega)]

theorem clear_ok {b : Buffer T BUFSZ} (h : b.WF) :
    clear b = .ok () (b.dropped b.used) :=
  drop_dropped h (Nat.le_refl _)

/-! ## What the calls throw -/

theorem queuePrep_throws_only (len : Nat) :
    Throws BufferExn (queuePrep len : EStateM Exn (Buffer T BUFSZ) _) := by
  intro b c e h
  unfold queuePrep at h
  repeat' split at h
  all_goals cases h
  all_goals constructor

theorem queueCommit_throws_only (len : Nat) :
    Throws BufferExn (queueCommit len : EStateM Exn (Buffer T BUFSZ) _) := by
  intro b c e h
  unfold queueCommit at h
  repeat' split at h
  all_goals cases h
  all_goals constructor

theorem peek_throws_only (len : Nat) :
    Throws BufferExn (peek len : EStateM Exn (Buffer T BUFSZ) _) := by
  intro b c e h
  unfold peek at h
  repeat' split at h
  all_goals cases h
  all_goals constructor

theorem drop_throws_only (len : Nat) :
    Throws BufferExn (drop len : EStateM Exn (Buffer T BUFSZ) _) := by
  intro b c e h
  unfold drop at h
  repeat' split at h
  all_goals cases h
  all_goals constructor

theorem queue_throws_only (len : Nat) :
    Throws BufferExn (queue len : EStateM Exn (Buffer T BUFSZ) _) :=
  throws_bind throws_get fun _ =>
    throws_bind (queuePrep_throws_only _) fun _ =>
      throws_bind (queueCommit_throws_only _) fun _ => throws_pure _

theorem queueEmplace_throws_only (x : T) :
    Throws BufferExn (queueEmplace x : EStateM Exn (Buffer T BUFSZ) _) :=
  throws_bind (queue_throws_only 1) fun _ =>
    throws_bind (throws_modify _) fun _ => throws_pure _

theorem dequeueOne_throws_only :
    Throws BufferExn (dequeueOne : EStateM Exn (Buffer T BUFSZ) _) :=
  throws_bind (throws_bind throws_get fun _ =>
    throws_bind (peek_throws_only _) fun _ =>
      throws_bind (drop_throws_only _) fun _ => throws_pure _)
    fun _ => throws_pure _

end Buffer

end Mutated.Ports
