import Mathlib.Algebra.Order.Ring.Nat
import Mathlib.Tactic.Linarith

/-! A binary tree with all its levels filled, and its storage by levels in an array: the children of
`i` are `2 * i + 1` and `2 * i + 2`, the leaves come after the inner nodes. -/
namespace HeapTree
variable {α β : Type*}

/-- A tree of the given depth. -/
inductive Perfect (α β : Type*) : Nat → Type _ where
  | leaf (b : β) : Perfect α β 0
  | node {k : Nat} (a : α) (left right : Perfect α β k) : Perfect α β (k + 1)

/-- The leaf that the directions lead to. -/
def Perfect.follow (goes_right : α → Bool) : {k : Nat} → Perfect α β k → β
  | _, .leaf b => b
  | _, .node a left right => if goes_right a then right.follow goes_right else left.follow goes_right

/-- The tree of depth `k` at the index `i`, when there are `n` inner nodes. -/
def ofArray (n : Nat) (nodes : Nat → α) (leaves : Nat → β) : (k i : Nat) → Perfect α β k
  | 0, i => .leaf (leaves (i - n))
  | k + 1, i =>
    .node (nodes i) (ofArray n nodes leaves k (2 * i + 1)) (ofArray n nodes leaves k (2 * i + 2))

/-- Down from `i` while the index is one of the `n` inner nodes. -/
def descend (n : Nat) (goes_right : Nat → Bool) (i : Nat) : Nat :=
  if i < n then descend n goes_right (if goes_right i then 2 * i + 2 else 2 * i + 1) else i
  termination_by n - i
  decreasing_by split <;> omega

variable {n : Nat} {goes_right : Nat → Bool} {i : Nat}

theorem descend_of_lt (h : i < n) : descend n goes_right i =
    descend n goes_right (if goes_right i then 2 * i + 2 else 2 * i + 1) := by
  rw [descend, if_pos h]

theorem descend_of_ge (h : n ≤ i) : descend n goes_right i = i := by
  rw [descend, if_neg (not_lt.mpr h)]

/-- The indices of level `j`. -/
def InLevel (j i : Nat) : Prop := 2 ^ j ≤ i + 1 ∧ i + 1 < 2 ^ (j + 1)

theorem InLevel.left {j : Nat} (h : InLevel j i) : InLevel (j + 1) (2 * i + 1) := by
  have h1 := h.1
  have h2 := h.2
  rw [InLevel, pow_succ 2 (j + 1), pow_succ 2 j] at *
  omega

theorem InLevel.right {j : Nat} (h : InLevel j i) : InLevel (j + 1) (2 * i + 2) := by
  have h1 := h.1
  have h2 := h.2
  rw [InLevel, pow_succ 2 (j + 1), pow_succ 2 j] at *
  omega

theorem InLevel.lt {j k : Nat} (h : InLevel j i) (hjk : j < k) : i < 2 ^ k - 1 := by
  have hpow : 2 ^ (j + 1) ≤ 2 ^ k := Nat.pow_le_pow_right (by omega) hjk
  have := h.2
  omega

/-- The descent from a node of level `j` takes the `k` steps that are left and ends below the inner
nodes, at the leaf that the tree gives. -/
theorem descend_ofArray (nodes : Nat → α) (leaves : Nat → β) (goes : α → Bool) {j k depth : Nat}
    (hdepth : j + k = depth) (hi : InLevel j i) :
    InLevel depth (descend (2 ^ depth - 1) (fun i => goes (nodes i)) i) ∧
      leaves (descend (2 ^ depth - 1) (fun i => goes (nodes i)) i - (2 ^ depth - 1)) =
        (ofArray (2 ^ depth - 1) nodes leaves k i).follow goes := by
  induction k generalizing i j with
  | zero =>
    obtain rfl : j = depth := hdepth
    have hge : 2 ^ j - 1 ≤ i := by
      have := hi.1
      omega
    rw [descend_of_ge hge]
    exact ⟨hi, rfl⟩
  | succ k ih =>
    rw [descend_of_lt (hi.lt (by omega)), ofArray, Perfect.follow]
    cases goes (nodes i) with
    | true => exact ih (by omega) hi.right
    | false => exact ih (by omega) hi.left

/-- The descent from the root ends at the index of a leaf. -/
theorem descend_root (depth : Nat) (goes_right : Nat → Bool) :
    2 ^ depth - 1 ≤ descend (2 ^ depth - 1) goes_right 0 ∧
      descend (2 ^ depth - 1) goes_right 0 - (2 ^ depth - 1) < 2 ^ depth := by
  have hroot : InLevel 0 0 := ⟨le_rfl, by norm_num⟩
  have hlevel : InLevel depth (descend (2 ^ depth - 1) goes_right 0) :=
    (descend_ofArray id id goes_right (Nat.zero_add depth) hroot).1
  have hpos := Nat.two_pow_pos depth
  have h1 := hlevel.1
  have h2 := hlevel.2
  rw [pow_succ] at h2
  constructor
  · omega
  · omega

end HeapTree
