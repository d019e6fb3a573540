import Mathlib.Data.List.Sort
import Mathlib.Data.Finset.Basic
import Mathlib.Order.Bounds.Basic

/-! Scanning a sorted list of integers for the first position whose entry is not
the number of that position. On a list without repetitions this finds the least
positive integer that is not in use; what it finds on any other list is
described by how often each number occurs, without reference to the scan. -/
namespace GapScan

/-- Index at which the scan stops: the first `j` whose entry is not `j + 1`. -/
def scanFrom : Nat → List Int → Nat
  | j, [] => j
  | j, t :: ts => if t = j + 1 then scanFrom (j + 1) ts else j

/-- Every entry is positive, each of `1 .. k - 1` occurs once and `k` does not occur. -/
structure FirstGap (ns : List Int) (k : Nat) : Prop where
  positive : ∀ n ∈ ns, 1 ≤ n
  pos : 1 ≤ k
  once : ∀ i : Nat, 1 ≤ i → i < k → ns.count (i : Int) = 1
  absent : ns.count (k : Int) = 0

/-- Every entry is positive, each of `1 .. i - 1` occurs once and `i` occurs more than once. -/
structure FirstRepeat (ns : List Int) (i : Nat) : Prop where
  positive : ∀ n ∈ ns, 1 ≤ n
  pos : 1 ≤ i
  once : ∀ j : Nat, 1 ≤ j → j < i → ns.count (j : Int) = 1
  twice : 2 ≤ ns.count (i : Int)

/-- The number the scan of the sorted entries ends up with. -/
inductive Selects (ns : List Int) : Nat → Prop where
  | nonpositive (n : Int) (hn : n ∈ ns) (h : n ≤ 0) : Selects ns 1
  | gap (k : Nat) (h : FirstGap ns k) : Selects ns k
  | repeated (i : Nat) (h : FirstRepeat ns i) : Selects ns (i + 1)

theorem FirstGap.perm {ns ms : List Int} {k : Nat} (h : FirstGap ns k) (hp : ns.Perm ms) :
    FirstGap ms k where
  positive n hn := h.positive n (hp.mem_iff.mpr hn)
  pos := h.pos
  once i h1 hk := hp.count_eq i ▸ h.once i h1 hk
  absent := hp.count_eq k ▸ h.absent

theorem FirstRepeat.perm {ns ms : List Int} {i : Nat} (h : FirstRepeat ns i) (hp : ns.Perm ms) :
    FirstRepeat ms i where
  positive n hn := h.positive n (hp.mem_iff.mpr hn)
  pos := h.pos
  once j h1 hk := hp.count_eq j ▸ h.once j h1 hk
  twice := hp.count_eq i ▸ h.twice

theorem Selects.perm {ns ms : List Int} {k : Nat} (h : Selects ns k) (hp : ns.Perm ms) :
    Selects ms k := by
  cases h with
  | nonpositive n hn h0 => exact .nonpositive n (hp.mem_iff.mp hn) h0
  | gap _ hg => exact .gap k (hg.perm hp)
  | repeated i hr => exact .repeated i (hr.perm hp)

/-- The selected number is determined by the entries. -/
theorem Selects.unique {ns : List Int} {k l : Nat} (hk : Selects ns k) (hl : Selects ns l) :
    k = l := by
  cases hk with
  | nonpositive n hn h0 =>
    cases hl with
    | nonpositive => rfl
    | gap _ hg => have := hg.positive n hn; omega
    | repeated _ hr => have := hr.positive n hn; omega
  | gap _ hg =>
    cases hl with
    | nonpositive n hn h0 => have := hg.positive n hn; omega
    | gap _ hg' =>
      rcases Nat.lt_trichotomy k l with h | h | h
      · have := hg'.once k hg.pos h; have := hg.absent; omega
      · exact h
      · have := hg.once l hg'.pos h; have := hg'.absent; omega
    | repeated i hr =>
      rcases Nat.lt_trichotomy k i with h | rfl | h
      · have := hr.once k hg.pos h; have := hg.absent; omega
      · have := hr.twice; have := hg.absent; omega
      · have := hg.once i hr.pos h; have := hr.twice; omega
  | repeated i hr =>
    cases hl with
    | nonpositive n hn h0 => have := hr.positive n hn; omega
    | gap _ hg =>
      rcases Nat.lt_trichotomy l i with h | rfl | h
      · have := hr.once l hg.pos h; have := hg.absent; omega
      · have := hr.twice; have := hg.absent; omega
      · have := hg.once i hr.pos h; have := hr.twice; omega
    | repeated j hr' =>
      rcases Nat.lt_trichotomy i j with h | rfl | h
      · have := hr'.once i hr.pos h; have := hr.twice; omega
      · rfl
      · have := hr.once j hr'.pos h; have := hr'.twice; omega

/-- One run of the scan from index `j` over entries above `j`: it stops before the
first number that is missing, or at the first number that occurs twice. -/
theorem scanFrom_cases (l : List Int) (j : Nat) (hs : l.Pairwise (· ≤ ·))
    (hlow : ∀ n ∈ l, (j : Int) + 1 ≤ n) :
    (j ≤ scanFrom j l ∧ (∀ i : Nat, j < i → i ≤ scanFrom j l → l.count (i : Int) = 1) ∧
      l.count ((scanFrom j l + 1 : Nat) : Int) = 0) ∨
    (j < scanFrom j l ∧ (∀ i : Nat, j < i → i < scanFrom j l → l.count (i : Int) = 1) ∧
      2 ≤ l.count (scanFrom j l : Int)) := by
  induction l generalizing j with
  | nil =>
    have hstop : scanFrom j [] = j := rfl
    rw [hstop]
    exact .inl ⟨le_refl j, fun i h1 h2 => by omega, by simp⟩
  | cons t ts ih =>
    obtain ⟨hts, hs'⟩ := List.pairwise_cons.mp hs
    by_cases ht : t = j + 1
    · by_cases hdup : ((j : Int) + 1) ∈ ts
      · -- the next entry is `j + 1` again, so the scan stops right here
        right
        cases ts with
        | nil => simp at hdup
        | cons u us =>
          have hu : u = j + 1 := by
            have h1 := hlow u (by simp)
            rcases List.mem_cons.mp hdup with h | h
            · exact h.symm
            · have h2 := (List.pairwise_cons.mp hs').1 _ h
              omega
          have hne : ¬ u = ((j + 1 : Nat) : Int) + 1 := by omega
          have hstop : scanFrom j (t :: u :: us) = j + 1 := by
            rw [scanFrom, if_pos ht, scanFrom, if_neg hne]
          rw [hstop]
          refine ⟨by omega, fun i h1 h2 => by omega, ?_⟩
          simp [ht, hu]
      · have hlow' : ∀ n ∈ ts, ((j + 1 : Nat) : Int) + 1 ≤ n := by
          intro n hn
          have h1 := hlow n (List.mem_cons_of_mem t hn)
          have h2 : n ≠ (j : Int) + 1 := by
            rintro rfl
            exact hdup hn
          omega
        have hgo : scanFrom j (t :: ts) = scanFrom (j + 1) ts := by simp [scanFrom, ht]
        have hcount : ∀ i : Nat, j + 1 < i → (t :: ts).count (i : Int) = ts.count (i : Int) := by
          intro i hi
          exact List.count_cons_of_ne (by omega)
        have hone : (t :: ts).count ((j + 1 : Nat) : Int) = 1 := by
          have h0 : ts.count ((j + 1 : Nat) : Int) = 0 := List.count_eq_zero.mpr (by simpa using hdup)
          rw [ht, List.count_cons, h0]
          simp
        have honce : ∀ r, (∀ i : Nat, j + 1 < i → i ≤ r → ts.count (i : Int) = 1) →
            ∀ i : Nat, j < i → i ≤ r → (t :: ts).count (i : Int) = 1 := by
          intro r h i h1 h2
          by_cases hi : i = j + 1
          · rw [hi]
            exact hone
          · rw [hcount i (by omega)]
            exact h i (by omega) h2
        rw [hgo]
        rcases ih (j + 1) hs' hlow' with ⟨hle, honce', habs⟩ | ⟨hlt, honce', htwo⟩
        · exact .inl ⟨by omega, honce _ honce', by rw [hcount _ (by omega)]; exact habs⟩
        · refine .inr ⟨by omega, fun i h1 h2 => ?_, by rw [hcount _ (by omega)]; exact htwo⟩
          exact honce (scanFrom (j + 1) ts - 1) (fun i h1 h2 => honce' i h1 (by omega)) i h1 (by omega)
    · have hstop : scanFrom j (t :: ts) = j := by simp [scanFrom, ht]
      rw [hstop]
      refine .inl ⟨le_refl j, fun i h1 h2 => by omega, List.count_eq_zero.mpr fun hmem => ?_⟩
      have h1 := hlow t (by simp)
      rcases List.mem_cons.mp hmem with h | h
      · omega
      · have h2 := hts _ h
        omega

theorem selects_scan {l : List Int} (hs : l.Pairwise (· ≤ ·)) : Selects l (scanFrom 0 l + 1) := by
  by_cases hpos : ∀ n ∈ l, (1 : Int) ≤ n
  · rcases scanFrom_cases l 0 hs (by simpa using hpos) with ⟨-, honce, habs⟩ | ⟨hlt, honce, htwo⟩
    · exact .gap _ ⟨hpos, by omega, fun i h1 h2 => honce i (by omega) (by omega), habs⟩
    · exact .repeated _ ⟨hpos, by omega, fun i h1 h2 => honce i (by omega) h2, htwo⟩
  · push Not at hpos
    obtain ⟨n, hn, h0⟩ := hpos
    cases l with
    | nil => simp at hn
    | cons t ts =>
      have ht : t ≤ n := by
        rcases List.mem_cons.mp hn with h | h
        · omega
        · exact (List.pairwise_cons.mp hs).1 n h
      have hstop : scanFrom 0 (t :: ts) = 0 := by
        have : t ≠ ((0 : Nat) : Int) + 1 := by omega
        simp [scanFrom]
        omega
      rw [hstop]
      exact .nonpositive t (by simp) (by omega)

/-- What the scan of the sorted entries yields, said in terms of the entries alone. -/
theorem selects_iff_scan {ns l : List Int} (hp : l.Perm ns) (hs : l.Pairwise (· ≤ ·)) (k : Nat) :
    Selects ns k ↔ scanFrom 0 l + 1 = k :=
  ⟨fun h => ((selects_scan hs).perm hp).unique h, fun h => h ▸ (selects_scan hs).perm hp⟩

/-- Positive entries without repetition: the least positive number not in use. -/
theorem Selects.isLeast {ns : List Int} {k : Nat} (h : Selects ns k)
    (hpos : ∀ n ∈ ns, (1 : Int) ≤ n) (hn : ns.Nodup) :
    IsLeast {m : Nat | 1 ≤ m ∧ (m : Int) ∉ ns} k := by
  cases h with
  | nonpositive n hmem h0 => have := hpos n hmem; omega
  | gap _ hg =>
    refine ⟨⟨hg.pos, List.count_eq_zero.mp hg.absent⟩, fun m hm => ?_⟩
    by_contra hlt
    have h1 := hg.once m hm.1 (by omega)
    rw [List.count_eq_zero.mpr hm.2] at h1
    omega
  | repeated i hr =>
    have h1 := hr.twice
    have h2 := List.nodup_iff_count_le_one.mp hn (i : Int)
    omega

end GapScan
