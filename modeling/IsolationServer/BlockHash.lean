import Mathlib.Data.List.Basic
import Mathlib.Data.List.Induction
import Mathlib.Tactic.Cases

/-!
# Hashing a message block by block

A compression function takes the hash value so far and the next block of `n`
symbols. A message is hashed by compressing its complete blocks in order; what
is left after them is kept for later. A message that arrives in pieces is hashed
like the message as a whole, and where the messages are padded so that none ends
in another one, two of them with the same hash value lead to two inputs on which
the compression function itself collides.
-/
namespace IsolationServer.BlockHash

section Blocks

variable {α : Type*} (n : ℕ)

/-- The complete blocks of `n` symbols, in order. -/
def blocks (xs : List α) : List (List α) :=
  if 0 < n ∧ n ≤ xs.length then xs.take n :: blocks (xs.drop n) else []
termination_by xs.length

/-- What is left after the complete blocks. -/
def rest (xs : List α) : List α := if 0 < n ∧ n ≤ xs.length then rest (xs.drop n) else xs
termination_by xs.length

variable {n} {xs : List α}

theorem blocks_of_short (h : xs.length < n) : blocks n xs = [] := by
  rw [blocks, if_neg (by omega)]

theorem rest_of_short (h : xs.length < n) : rest n xs = xs := by
  rw [rest, if_neg (by omega)]

theorem blocks_of_le (hn : 0 < n) (h : n ≤ xs.length) :
    blocks n xs = xs.take n :: blocks n (xs.drop n) := by
  rw [blocks, if_pos ⟨hn, h⟩]

theorem rest_of_le (hn : 0 < n) (h : n ≤ xs.length) : rest n xs = rest n (xs.drop n) := by
  rw [rest, if_pos ⟨hn, h⟩]

/-- Blocks and rest hold the whole message. -/
theorem flatten_blocks (n : ℕ) (xs : List α) : (blocks n xs).flatten ++ rest n xs = xs := by
  induction xs using rest.induct n with
  | case1 xs h ih =>
    rw [blocks_of_le h.1 h.2, rest_of_le h.1 h.2, List.flatten_cons, List.append_assoc, ih,
      List.take_append_drop]
  | case2 xs h =>
    rw [blocks, rest, if_neg h, if_neg h]
    rfl

theorem length_rest (hn : 0 < n) (xs : List α) : (rest n xs).length = xs.length % n := by
  induction xs using rest.induct n with
  | case1 xs h ih =>
    rw [rest_of_le h.1 h.2, ih, List.length_drop, Nat.mod_eq_sub_mod h.2]
  | case2 xs h => rw [rest_of_short (by omega), Nat.mod_eq_of_lt (by omega)]

/-- The first piece of a message leaves its rest to the second one. -/
theorem blocks_append (hn : 0 < n) (xs ys : List α) :
    blocks n (xs ++ ys) = blocks n xs ++ blocks n (rest n xs ++ ys) := by
  induction xs using rest.induct n with
  | case1 xs h ih =>
    have hle : n ≤ (xs ++ ys).length := by rw [List.length_append]; omega
    rw [blocks_of_le hn hle, List.take_append_of_le_length h.2, List.drop_append_of_le_length h.2,
      ih, blocks_of_le h.1 h.2, rest_of_le h.1 h.2, List.cons_append]
  | case2 xs h =>
    have hshort : xs.length < n := by omega
    rw [blocks_of_short hshort, rest_of_short hshort, List.nil_append]

theorem rest_append (hn : 0 < n) (xs ys : List α) :
    rest n (xs ++ ys) = rest n (rest n xs ++ ys) := by
  induction xs using rest.induct n with
  | case1 xs h ih =>
    have hle : n ≤ (xs ++ ys).length := by rw [List.length_append]; omega
    rw [rest_of_le hn hle, List.drop_append_of_le_length h.2, ih, rest_of_le h.1 h.2]
  | case2 xs h =>
    have hshort : xs.length < n := by omega
    rw [rest_of_short hshort]

/-- A message of complete blocks that begins with one of them. -/
theorem blocks_append_of_length (hn : 0 < n) {b : List α} (h : b.length = n) (xs : List α) :
    blocks n (b ++ xs) = b :: blocks n xs := by
  rw [blocks_of_le hn (by rw [List.length_append]; omega), List.take_left' h, List.drop_left' h]

/-- A message of complete blocks leaves nothing. -/
theorem rest_of_mod_eq_zero (hn : 0 < n) (h : xs.length % n = 0) : rest n xs = [] :=
  List.eq_nil_of_length_eq_zero ((length_rest hn xs).trans h)

/-- Complete blocks in front of a message do not change its rest. -/
theorem rest_append_left (hn : 0 < n) (h : xs.length % n = 0) (ys : List α) :
    rest n (xs ++ ys) = rest n ys := by
  rw [rest_append hn, rest_of_mod_eq_zero hn h, List.nil_append]

theorem flatten_blocks_of_mod_eq_zero (hn : 0 < n) (h : xs.length % n = 0) :
    (blocks n xs).flatten = xs := by
  have hflat := flatten_blocks n xs
  rwa [rest_of_mod_eq_zero hn h, List.append_nil] at hflat

end Blocks

section Chaining

variable {α H : Type*} (n : ℕ) (compress : H → List α → H)

/-- The hash value after the complete blocks of a message. -/
def absorb (h : H) (xs : List α) : H := (blocks n xs).foldl compress h

variable {n compress} {h : H} {xs : List α}

theorem absorb_of_short (hx : xs.length < n) : absorb n compress h xs = h := by
  rw [absorb, blocks_of_short hx, List.foldl_nil]

/-- A message in two pieces. -/
theorem absorb_append (hn : 0 < n) (xs ys : List α) : absorb n compress h (xs ++ ys) =
    absorb n compress (absorb n compress h xs) (rest n xs ++ ys) := by
  rw [absorb, blocks_append hn, List.foldl_append]
  rfl

/-- A message of complete blocks, and one after it. -/
theorem absorb_append_left (hn : 0 < n) (hx : xs.length % n = 0) (ys : List α) :
    absorb n compress h (xs ++ ys) = absorb n compress (absorb n compress h xs) ys := by
  rw [absorb_append hn, rest_of_mod_eq_zero hn hx, List.nil_append]

theorem absorb_append_of_length (hn : 0 < n) {b : List α} (hb : b.length = n) (xs : List α) :
    absorb n compress h (b ++ xs) = absorb n compress (compress h b) xs := by
  rw [absorb, blocks_append_of_length hn hb, List.foldl_cons]
  rfl

theorem absorb_of_length (hn : 0 < n) {b : List α} (hb : b.length = n) :
    absorb n compress h b = compress h b := by
  rw [← List.append_nil b, absorb_append_of_length hn hb, List.append_nil]
  exact absorb_of_short hn

/-- The inputs on which the compression function is called for a list of blocks. -/
def links (compress : H → List α → H) : H → List (List α) → List (H × List α)
  | _, [] => []
  | h, b :: bs => (h, b) :: links compress (compress h b) bs

theorem links_append (h : H) (bs cs : List (List α)) : links compress h (bs ++ cs) =
    links compress h bs ++ links compress (bs.foldl compress h) cs := by
  induction bs generalizing h with
  | nil => rfl
  | cons b bs ih => simp [links, ih]

/-- Two lists of blocks of which neither ends in the other, with the same hash value,
meet in a collision of the compression function. -/
theorem collision_of_foldl_eq (bs cs : List (List α)) {h k : H}
    (heq : bs.foldl compress h = cs.foldl compress k) (hbc : ¬bs <:+ cs) (hcb : ¬cs <:+ bs) :
    ∃ p ∈ links compress h bs, ∃ q ∈ links compress k cs,
      p ≠ q ∧ compress p.1 p.2 = compress q.1 q.2 := by
  induction bs using List.reverseRecOn generalizing cs with
  | nil => exact absurd (List.nil_suffix) hbc
  | append_singleton bs b ih =>
    rcases cs.eq_nil_or_concat' with rfl | ⟨ds, c, rfl⟩
    · exact absurd (List.nil_suffix) hcb
    · simp only [List.foldl_append, List.foldl_cons, List.foldl_nil] at heq
      simp only [links_append, links, List.mem_append, List.mem_singleton]
      by_cases hp : (bs.foldl compress h, b) = (ds.foldl compress k, c)
      · -- the last blocks are compressed alike, so the difference lies before them
        obtain ⟨hv, rfl⟩ := Prod.mk.inj hp
        have hb : ¬bs <:+ ds := by
          rintro ⟨t, rfl⟩
          exact hbc ⟨t, (List.append_assoc t bs [b]).symm⟩
        have hc : ¬ds <:+ bs := by
          rintro ⟨t, rfl⟩
          exact hcb ⟨t, (List.append_assoc t ds [b]).symm⟩
        obtain ⟨p, hpm, q, hqm, hne, hpq⟩ := ih ds hv hb hc
        exact ⟨p, .inl hpm, q, .inl hqm, hne, hpq⟩
      · exact ⟨_, .inr rfl, _, .inr rfl, hp, heq⟩

end Chaining

end IsolationServer.BlockHash
