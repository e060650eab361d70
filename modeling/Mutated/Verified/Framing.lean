import Mathlib.Data.List.Infix

/-!
# Messages in a stream

A *reader* takes one message off the front of a list, if a whole one is there.
A stream is read by taking messages off as long as there are any; what is left
is the start of a message that has not arrived yet.

`messages_append` says that a stream may be read in pieces of any size: the
start of a message that one piece leaves is read in front of the next piece.
So whoever has only the start of a stream has read the first of its messages,
and no others.

Streams that are made of whole messages are read back: `messages_flatten`.
-/

namespace Mutated.Verified.Framing

variable {α β : Type}

/-! ## Readers -/

/-- A reader: the message at the front of a list, and the rest. -/
abbrev Reader (α β : Type) := List α → Option (β × List α)

/-- A reader takes at least one element, and what follows the message does not
matter for it. -/
structure Lawful (read : Reader α β) : Prop where
  shorter : ∀ {xs rest m}, read xs = some (m, rest) → rest.length < xs.length
  stable : ∀ {xs rest m}, read xs = some (m, rest) →
    ∀ more, read (xs ++ more) = some (m, rest ++ more)

/-- `xs` is the message `m`, and nothing more. -/
def Encodes (read : Reader α β) (m : β) (xs : List α) : Prop :=
  read xs = some (m, [])

/-! ## Reading a stream -/

/-- The first messages of a list, at most `n`, and what is left. -/
def readAll (read : Reader α β) : Nat → List α → List β × List α
  | 0, xs => ([], xs)
  | n + 1, xs =>
      match read xs with
      | none => ([], xs)
      | some (m, rest) =>
          (m :: (readAll read n rest).1, (readAll read n rest).2)

/-- The messages of a list, and what is left: there are no more messages than
elements. -/
def messages (read : Reader α β) (xs : List α) : List β × List α :=
  readAll read xs.length xs

section Reading

variable {read : Reader α β}

theorem readAll_none {xs : List α} (h : read xs = none) (n : Nat) :
    readAll read n xs = ([], xs) := by
  cases n with
  | zero => rfl
  | succ n => simp only [readAll, h]

theorem readAll_some {xs rest : List α} {m : β}
    (h : read xs = some (m, rest)) (n : Nat) :
    readAll read (n + 1) xs =
      (m :: (readAll read n rest).1, (readAll read n rest).2) := by
  simp only [readAll, h]

/-- There is no message in nothing. -/
theorem Lawful.read_nil (hread : Lawful read) : read [] = none := by
  cases h : read [] with
  | none => rfl
  | some next => exact absurd (hread.shorter h) (Nat.not_lt_zero _)

/-- Rounds for which no message is left do not matter. -/
theorem readAll_congr (hread : Lawful read) : ∀ {n k : Nat} {xs : List α},
    xs.length ≤ n → xs.length ≤ k → readAll read n xs = readAll read k xs := by
  intro n
  induction n with
  | zero =>
      intro k xs hn hk
      rw [List.length_eq_zero_iff.mp (Nat.le_zero.mp hn),
        readAll_none hread.read_nil, readAll_none hread.read_nil]
  | succ n ih =>
      intro k xs hn hk
      cases h : read xs with
      | none => rw [readAll_none h, readAll_none h]
      | some next =>
          have hlt : next.2.length < xs.length := hread.shorter h
          cases k with
          | zero => omega
          | succ k =>
              rw [readAll_some h, readAll_some h,
                ih (k := k) (by omega) (by omega)]

theorem messages_none {xs : List α} (h : read xs = none) :
    messages read xs = ([], xs) := readAll_none h _

theorem messages_some (hread : Lawful read) {xs rest : List α} {m : β}
    (h : read xs = some (m, rest)) :
    messages read xs =
      (m :: (messages read rest).1, (messages read rest).2) := by
  have hlt := hread.shorter h
  rw [messages, readAll_congr hread (Nat.le_refl _)
    (show xs.length ≤ rest.length + (xs.length - rest.length - 1) + 1 by omega),
    readAll_some h, readAll_congr hread (k := rest.length) (by omega)
      (Nat.le_refl _)]
  rfl

/-- **A stream may be read in pieces.** -/
theorem messages_append (hread : Lawful read) (xs more : List α) :
    messages read (xs ++ more) =
      ((messages read xs).1 ++
          (messages read ((messages read xs).2 ++ more)).1,
        (messages read ((messages read xs).2 ++ more)).2) := by
  induction hlen : xs.length using Nat.strong_induction_on generalizing xs with
  | _ n ih =>
      cases h : read xs with
      | none => rw [messages_none h, List.nil_append]
      | some next =>
          obtain ⟨m, rest⟩ := next
          have hlt := hread.shorter h
          rw [messages_some hread (hread.stable h more), messages_some hread h,
            ih _ (hlen ▸ hlt) rest rfl, List.cons_append]

/-- **The start of a stream** has the first of its messages. -/
theorem messages_prefix (hread : Lawful read) {xs ys : List α}
    (h : xs <+: ys) : (messages read xs).1 <+: (messages read ys).1 := by
  obtain ⟨more, rfl⟩ := h
  rw [messages_append hread]
  exact List.prefix_append ..

/-! ## Streams of whole messages -/

theorem Encodes.read_append (hread : Lawful read) {m : β} {xs : List α}
    (h : Encodes read m xs) (more : List α) :
    read (xs ++ more) = some (m, more) := hread.stable h more

theorem messages_encoded (hread : Lawful read) {m : β} {xs : List α}
    (h : Encodes read m xs) (more : List α) :
    messages read (xs ++ more) =
      (m :: (messages read more).1, (messages read more).2) :=
  messages_some hread (h.read_append hread more)

/-- **A stream of whole messages** is read back. -/
theorem messages_flatten (hread : Lawful read) {ms : List β}
    {xss : List (List α)} (h : List.Forall₂ (Encodes read) ms xss) :
    messages read xss.flatten = (ms, []) := by
  induction h with
  | nil => exact messages_none hread.read_nil
  | cons hfirst _ ih =>
      rw [List.flatten_cons, messages_encoded hread hfirst, ih]

/-- What is read of the start of such a stream. -/
theorem messages_of_prefix (hread : Lawful read) {ms : List β}
    {xss : List (List α)} (h : List.Forall₂ (Encodes read) ms xss)
    {xs : List α} (hxs : xs <+: xss.flatten) :
    (messages read xs).1 <+: ms := by
  have hall := messages_prefix hread hxs
  rwa [messages_flatten hread h] at hall

end Reading

end Mutated.Verified.Framing
