import Mathlib.Data.Fintype.Pigeonhole
import Mathlib.Data.List.Pairwise
import Mathlib.Data.List.Sort
import Mathlib.Order.Lattice

/-! The farthest-first choice of centers with a rank: the next center is the sample whose gap to the
centers chosen so far has a given place among all gaps. With the last place it is a farthest sample;
a place before the last one leaves some samples out of account. -/
namespace FarthestFirst

/-! ### The value of a rank -/

section Rank
variable {D : Type*} [LinearOrder D]

/-- In order, `r` stands at the place `b` of the list. -/
structure AtRank (l : List D) (b : Nat) (r : D) : Prop where
  below : l.countP (fun a => a < r) ≤ b
  upTo : b < l.countP fun a => a ≤ r

variable {l l' : List D} {b : Nat} {r r' : D}

theorem AtRank.perm (h : AtRank l b r) (hp : l.Perm l') : AtRank l' b r := by
  constructor
  · rw [← hp.countP_eq]
    exact h.below
  · rw [← hp.countP_eq]
    exact h.upTo

/-- A value that has a place is in the list. -/
theorem AtRank.mem (h : AtRank l b r) : r ∈ l := by
  by_contra hr
  have hsame : l.countP (fun a => a ≤ r) = l.countP fun a => a < r := by
    apply List.countP_congr
    intro a ha
    have hne : a ≠ r := fun har => hr (har ▸ ha)
    simp [hne.le_iff_lt]
  have := h.below
  have := h.upTo
  omega

theorem sorted_atRank (hl : l.Pairwise (· ≤ ·)) (hb : b < l.length) : AtRank l b l[b] := by
  have hsplit : l.take b ++ l.drop b = l := List.take_append_drop b l
  have htake : ∀ a ∈ l.take (b + 1), a ≤ l[b] := by
    intro a ha
    obtain ⟨i, hi, rfl⟩ := List.mem_iff_getElem.mp ha
    rw [List.length_take] at hi
    rw [List.getElem_take]
    rcases Nat.lt_or_ge i b with hib | hib
    · exact List.pairwise_iff_getElem.mp hl i b (by omega) hb hib
    · obtain rfl : i = b := by omega
      exact le_rfl
  have hdrop : ∀ a ∈ l.drop b, ¬ a < l[b] := by
    intro a ha
    obtain ⟨i, hi, rfl⟩ := List.mem_iff_getElem.mp ha
    rw [List.length_drop] at hi
    rw [List.getElem_drop]
    cases i with
    | zero => exact lt_irrefl _
    | succ i => exact (List.pairwise_iff_getElem.mp hl b (b + (i + 1)) hb (by omega) (by omega)).not_gt
  have hnone : (l.drop b).countP (fun a => a < l[b]) = 0 :=
    List.countP_eq_zero.mpr fun a ha => by simpa using hdrop a ha
  have hall : (l.take (b + 1)).countP (fun a => a ≤ l[b]) = (l.take (b + 1)).length :=
    List.countP_eq_length.mpr fun a ha => by simpa using htake a ha
  constructor
  · calc
      l.countP (fun a => a < l[b])
          = (l.take b).countP (fun a => a < l[b]) + (l.drop b).countP (fun a => a < l[b]) := by
            rw [← List.countP_append, hsplit]
      _ = (l.take b).countP (fun a => a < l[b]) := by rw [hnone, Nat.add_zero]
      _ ≤ (l.take b).length := List.countP_le_length
      _ ≤ b := List.length_take_le b l
  · apply Nat.lt_of_lt_of_le _ (List.take_sublist (b + 1) l).countP_le
    rw [hall, List.length_take]
    omega

theorem exists_atRank (hb : b < l.length) : ∃ r, AtRank l b r := by
  have hp := List.mergeSort_perm l fun a a' => decide (a ≤ a')
  have hsorted : (l.mergeSort fun a a' => decide (a ≤ a')).Pairwise (· ≤ ·) :=
    List.pairwise_mergeSort' (· ≤ ·) l
  have hlen : b < (l.mergeSort fun a a' => decide (a ≤ a')).length := by rwa [hp.length_eq]
  exact ⟨_, (sorted_atRank hsorted hlen).perm hp⟩

/-- When every value of a list gets smaller, so does the value at a place. -/
theorem AtRank.anti {X : Type*} {samples : List X} {f g : X → D} (hf : AtRank (samples.map f) b r)
    (hg : AtRank (samples.map g) b r') (hgf : ∀ x ∈ samples, g x ≤ f x) : r' ≤ r := by
  by_contra hlt
  have hle : samples.countP (fun x => f x ≤ r) ≤ samples.countP fun x => g x < r' := by
    apply List.countP_mono_left
    intro x hx hfx
    have hfx : f x ≤ r := by simpa using hfx
    simpa using ((hgf x hx).trans hfx).trans_lt (not_le.mp hlt)
  have hup := hf.upTo
  have hbelow := hg.below
  rw [List.countP_map] at hup hbelow
  exact absurd (hup.trans_le hle) (not_lt.mpr hbelow)

end Rank

/-! ### The choice -/

section Choice
variable {X D : Type*} [LinearOrder D] (d : X → X → D) (top : D)

/-- The distance to the nearest center, at most `top`. -/
def gap (centers : List X) (x : X) : D := centers.foldl (fun r c => min r (d x c)) top

variable {d top} {centers samples : List X} {c x : X} {b : Nat}

@[simp] theorem gap_nil : gap d top [] x = top := rfl

@[simp] theorem gap_snoc : gap d top (centers ++ [c]) x = min (gap d top centers x) (d x c) := by
  simp [gap]

theorem gap_snoc_le : gap d top (centers ++ [c]) x ≤ gap d top centers x := by
  rw [gap_snoc]
  exact min_le_left _ _

theorem gap_le (hc : c ∈ centers) : gap d top centers x ≤ d x c := by
  induction centers using List.reverseRecOn with
  | nil => simp at hc
  | append_singleton centers c' ih =>
    rw [gap_snoc]
    rcases List.mem_append.mp hc with hc | hc
    · exact (min_le_left _ _).trans (ih hc)
    · rw [List.mem_singleton.mp hc]
      exact min_le_right _ _

theorem gap_attained : gap d top centers x = top ∨ ∃ c ∈ centers, gap d top centers x = d x c := by
  induction centers using List.reverseRecOn with
  | nil => exact .inl rfl
  | append_singleton centers c ih =>
    rw [gap_snoc]
    rcases min_choice (gap d top centers x) (d x c) with h | h
    · rw [h]
      exact ih.imp id fun ⟨c', hc', heq⟩ => ⟨c', by simp [hc'], heq⟩
    · exact .inr ⟨c, by simp, h⟩

/-- Each center is a sample whose gap stands at the place `b` when it is chosen. -/
inductive Chosen (d : X → X → D) (top : D) (samples : List X) (b : Nat) : List X → Prop where
  | nil : Chosen d top samples b []
  | snoc {centers : List X} (h : Chosen d top samples b centers) {x : X} (hx : x ∈ samples)
      (hrank : AtRank (samples.map (gap d top centers)) b (gap d top centers x)) :
      Chosen d top samples b (centers ++ [x])

theorem Chosen.subset (h : Chosen d top samples b centers) : ∀ c ∈ centers, c ∈ samples := by
  induction h with
  | nil => simp
  | snoc h hx _ ih =>
    intro c hc
    rcases List.mem_append.mp hc with hc | hc
    · exact ih c hc
    · exact List.mem_singleton.mp hc ▸ hx

/-- The centers are as far apart as the gap that stands at the place now. -/
theorem Chosen.separated (h : Chosen d top samples b centers) {r : D}
    (hr : AtRank (samples.map (gap d top centers)) b r) :
    centers.Pairwise fun c c' => r ≤ d c' c := by
  induction h generalizing r with
  | nil => exact List.Pairwise.nil
  | @snoc centers h x hx hrank ih =>
    have hle : r ≤ gap d top centers x := hrank.anti hr fun y _ => gap_snoc_le
    rw [List.pairwise_append]
    refine ⟨(ih hrank).imp fun hd => hle.trans hd, List.pairwise_singleton _ _, fun c hc c' hc' => ?_⟩
    rw [List.mem_singleton.mp hc']
    exact hle.trans (gap_le hc)

/-- However as many points are placed, near to all samples: nearly all samples are as close to a
chosen center as two samples near one point can be to each other. -/
theorem Chosen.nearly_best (h : Chosen d top samples b centers) (hb : b < samples.length)
    (hne : centers ≠ []) (htop : ∀ x ∈ samples, ∀ c ∈ samples, d x c < top)
    {Y : Type*} (points : List Y) (hpoints : points.length ≤ centers.length) (near : X → Y → Prop)
    (hnear : ∀ x ∈ samples, ∃ y ∈ points, near x y) {R : D}
    (hclose : ∀ x x' y, near x y → near x' y → d x x' ≤ R) :
    ∃ good : List X, good.Sublist samples ∧ b < good.length ∧
      ∀ x ∈ good, ∃ c ∈ centers, d x c ≤ R := by
  obtain ⟨r, hr⟩ := exists_atRank (l := samples.map (gap d top centers)) (by simpa using hb)
  obtain ⟨far, hfar, rfl⟩ := List.mem_map.mp hr.mem
  -- one center more than points, and all of them apart
  have hmore := (Chosen.snoc h hfar hr).subset
  have hapart : (centers ++ [far]).Pairwise fun c c' => gap d top centers far ≤ d c' c := by
    rw [List.pairwise_append]
    refine ⟨h.separated hr, List.pairwise_singleton _ _, fun c hc c' hc' => ?_⟩
    rw [List.mem_singleton.mp hc']
    exact gap_le hc
  have hpoint : ∀ i : Fin (centers ++ [far]).length, ∃ k : Fin points.length,
      near (centers ++ [far])[i] points[k] := by
    intro i
    obtain ⟨y, hy, hxy⟩ := hnear _ (hmore _ (List.getElem_mem i.isLt))
    obtain ⟨k, hk, rfl⟩ := List.mem_iff_getElem.mp hy
    exact ⟨⟨k, hk⟩, hxy⟩
  choose f hf using hpoint
  obtain ⟨i, j, hij, hsame⟩ := Fintype.exists_ne_map_eq_of_card_lt f (by
    rw [Fintype.card_fin, Fintype.card_fin, List.length_append, List.length_singleton]
    omega)
  have hshared (i j : Fin (centers ++ [far]).length) (hlt : i < j) (hsame : f i = f j) :
      gap d top centers far ≤ R :=
    (List.pairwise_iff_getElem.mp hapart i j i.isLt j.isLt hlt).trans
      (hclose _ _ _ (hf j) (hsame ▸ hf i))
  have hgap : gap d top centers far ≤ R := by
    rcases lt_or_gt_of_ne hij with hlt | hlt
    · exact hshared i j hlt hsame
    · exact hshared j i hlt hsame.symm
  have hup := hr.upTo
  rw [List.countP_map, List.countP_eq_length_filter] at hup
  refine ⟨_, List.filter_sublist, hup, fun x hx => ?_⟩
  have hxle : gap d top centers x ≤ R := by
    have hx := (List.mem_filter.mp hx).2
    exact (by simpa using hx : gap d top centers x ≤ gap d top centers far).trans hgap
  obtain ⟨c, hc⟩ := List.exists_mem_of_ne_nil centers hne
  have hlt : gap d top centers x < top :=
    (gap_le hc).trans_lt (htop x (List.mem_filter.mp hx).1 c (h.subset c hc))
  obtain ⟨c, hc, heq⟩ := gap_attained.resolve_left hlt.ne
  exact ⟨c, hc, heq ▸ hxle⟩

end Choice

end FarthestFirst
