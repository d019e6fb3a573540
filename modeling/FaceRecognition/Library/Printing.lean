import FaceRecognition.Library.CppString
import Mathlib.Data.List.Forall2
import Mathlib.Data.List.Induction

/-! Computations that print lines and may end in an exception: the lines printed
before the exception stay printed. -/
open CppString

namespace Except
variable {ε α β : Type*}

@[simp] theorem ok_bind (a : α) (f : α → Except ε β) : (Except.ok a).bind f = f a := rfl

@[simp] theorem error_bind (e : ε) (f : α → Except ε β) : (Except.error e).bind f = .error e := rfl

theorem bind_eq_ok {x : Except ε α} {f : α → Except ε β} {b : β} :
    x.bind f = .ok b ↔ ∃ a, x = .ok a ∧ f a = .ok b := by
  cases x <;> simp [Except.bind]

theorem mapM_length {f : α → Except ε β} {as : List α} {bs : List β} (h : as.mapM f = .ok bs) :
    bs.length = as.length := by
  induction as generalizing bs with
  | nil =>
    cases h
    rfl
  | cons a as ih =>
    rw [List.mapM_cons] at h
    obtain ⟨b, -, h⟩ := bind_eq_ok.mp h
    obtain ⟨bs', hbs, h⟩ := bind_eq_ok.mp h
    cases h
    simp [ih hbs]

theorem mapM_cons_ok_iff {f : α → Except ε β} {a : α} {as : List α} {cs : List β} :
    (a :: as).mapM f = .ok cs ↔ ∃ b bs, f a = .ok b ∧ as.mapM f = .ok bs ∧ cs = b :: bs := by
  rw [List.mapM_cons]
  constructor
  · intro h
    obtain ⟨b, hb, h⟩ := bind_eq_ok.mp h
    obtain ⟨bs, hbs, h⟩ := bind_eq_ok.mp h
    cases h
    exact ⟨b, bs, hb, hbs, rfl⟩
  · rintro ⟨b, bs, hb, hbs, rfl⟩
    exact bind_eq_ok.mpr ⟨b, hb, bind_eq_ok.mpr ⟨bs, hbs, rfl⟩⟩

theorem mapM_getElem?_iff {f : α → Except ε β} {as : List α} {bs : List β} (h : as.mapM f = .ok bs)
    (i : Nat) (b : β) : bs[i]? = some b ↔ ∃ a, as[i]? = some a ∧ f a = .ok b := by
  induction as generalizing bs i with
  | nil =>
    cases h
    simp
  | cons a as ih =>
    obtain ⟨c, cs, hc, hcs, rfl⟩ := mapM_cons_ok_iff.mp h
    cases i with
    | zero => simp [hc]
    | succ i => simpa using ih hcs i

theorem mapM_eq_map {f : α → Except ε β} {g : α → β} {as : List α}
    (h : ∀ a ∈ as, f a = .ok (g a)) : as.mapM f = .ok (as.map g) := by
  induction as with
  | nil => rfl
  | cons a as ih =>
    exact mapM_cons_ok_iff.mpr ⟨g a, as.map g, h a (by simp),
      ih fun b hb => h b (List.mem_cons_of_mem a hb), rfl⟩

/-- A loop over the indices of a list that computes one value from each entry. -/
theorem mapM_range_eq_map {f : Nat → Except ε β} {g : α → β} {l : List α}
    (h : ∀ i (hi : i < l.length), f i = .ok (g l[i])) :
    (List.range l.length).mapM f = .ok (l.map g) := by
  induction l using List.reverseRecOn with
  | nil => rfl
  | append_singleton l a ih =>
    have hinit := ih fun i hi => by
      rw [h i (by simp; omega), List.getElem_append_left hi]
    have hlast := h l.length (by simp)
    rw [List.getElem_append_right le_rfl, List.getElem_singleton] at hlast
    have hone : [l.length].mapM f = .ok [g a] := mapM_cons_ok_iff.mpr ⟨g a, [], hlast, rfl, rfl⟩
    rw [List.length_append, List.length_singleton, List.range_succ, List.mapM_append, hinit, hone,
      List.map_append]
    rfl

theorem mapM_ok_exists_iff (f : α → Except ε β) (as : List α) :
    (∃ bs, as.mapM f = .ok bs) ↔ ∀ a ∈ as, ∃ b, f a = .ok b := by
  induction as with
  | nil => exact ⟨by simp, fun _ => ⟨[], rfl⟩⟩
  | cons a as ih =>
    simp only [mapM_cons_ok_iff, List.forall_mem_cons, ← ih]
    constructor
    · rintro ⟨_, b, bs, hb, hbs, -⟩
      exact ⟨⟨b, hb⟩, bs, hbs⟩
    · rintro ⟨⟨b, hb⟩, bs, hbs⟩
      exact ⟨_, b, bs, hb, hbs, rfl⟩

end Except

structure Printing (ε α : Type*) where
  lines : List Str
  result : Except ε α

namespace Printing
variable {ε α β : Type*}

protected def pure (a : α) : Printing ε α := ⟨[], .ok a⟩

protected def bind (x : Printing ε α) (f : α → Printing ε β) : Printing ε β :=
  match x.result with
  | .ok a => ⟨x.lines ++ (f a).lines, (f a).result⟩
  | .error e => ⟨x.lines, .error e⟩

/-- A computation that prints nothing. -/
def quiet (x : Except ε α) : Printing ε α := ⟨[], x⟩

@[simp] theorem pure_lines (a : α) : (Printing.pure a : Printing ε α).lines = [] := rfl
@[simp] theorem pure_result (a : α) : (Printing.pure a : Printing ε α).result = .ok a := rfl

theorem bind_of_ok {x : Printing ε α} {a : α} (h : x.result = .ok a) (f : α → Printing ε β) :
    x.bind f = ⟨x.lines ++ (f a).lines, (f a).result⟩ := by
  simp [Printing.bind, h]

theorem bind_of_error {x : Printing ε α} {e : ε} (h : x.result = .error e)
    (f : α → Printing ε β) : x.bind f = ⟨x.lines, .error e⟩ := by
  simp [Printing.bind, h]

@[simp] theorem pure_bind (a : α) (f : α → Printing ε β) : (Printing.pure a).bind f = f a := by
  simp [Printing.bind, Printing.pure]

@[simp] theorem quiet_ok_bind (a : α) (f : α → Printing ε β) : (quiet (.ok a)).bind f = f a := by
  simp [Printing.bind, quiet]

theorem bind_result (x : Printing ε α) (f : α → Printing ε β) :
    (x.bind f).result = x.result.bind fun a => (f a).result := by
  cases h : x.result with
  | error e => simp [Printing.bind, h, Except.bind]
  | ok a => simp [Printing.bind, h, Except.bind]

/-- The results of the items in order; the first exception ends the traversal. -/
def traverse (f : α → Printing ε β) : List α → Printing ε (List β)
  | [] => .pure []
  | a :: as => (f a).bind fun b => (traverse f as).bind fun bs => .pure (b :: bs)

theorem bind_append_ok {x : Printing ε (List β)} {bs : List β} (h : x.result = .ok bs) (b : β) :
    (x.bind fun bs => .pure (b :: bs)) = ⟨x.lines, .ok (b :: bs)⟩ := by
  simp [bind_of_ok h]

theorem traverse_result_ok_iff (f : α → Printing ε β) (as : List α) (bs : List β) :
    (traverse f as).result = .ok bs ↔ List.Forall₂ (fun a b => (f a).result = .ok b) as bs := by
  induction as generalizing bs with
  | nil => simp [traverse, List.forall₂_nil_left_iff, eq_comm]
  | cons a as ih =>
    simp only [traverse, bind_result, Except.bind_eq_ok, pure_result, Except.ok.injEq, ih]
    constructor
    · rintro ⟨b, hb, cs, hcs, rfl⟩
      exact .cons hb hcs
    · rintro (_ | ⟨hb, hbs⟩)
      exact ⟨_, hb, _, hbs, rfl⟩

theorem traverse_ok_exists_iff (f : α → Printing ε β) (as : List α) :
    (∃ bs, (traverse f as).result = .ok bs) ↔ ∀ a ∈ as, ∃ b, (f a).result = .ok b := by
  induction as with
  | nil => simp [traverse]
  | cons a as ih =>
    simp only [traverse, bind_result, Except.bind_eq_ok, pure_result, Except.ok.injEq,
      List.forall_mem_cons, ← ih]
    constructor
    · rintro ⟨_, b, hb, cs, hcs, -⟩
      exact ⟨⟨b, hb⟩, cs, hcs⟩
    · rintro ⟨⟨b, hb⟩, cs, hcs⟩
      exact ⟨_, b, hb, cs, hcs, rfl⟩

theorem bind_assoc {γ : Type*} (x : Printing ε α) (f : α → Printing ε β) (g : β → Printing ε γ) :
    (x.bind f).bind g = x.bind fun a => (f a).bind g := by
  cases hx : x.result with
  | error e =>
    rw [bind_of_error hx, bind_of_error hx]
    exact bind_of_error rfl g
  | ok a =>
    cases hf : (f a).result with
    | error e => simp [Printing.bind, hx, hf]
    | ok b => simp [Printing.bind, hx, hf]

@[simp] theorem bind_pure (x : Printing ε α) : x.bind Printing.pure = x := by
  cases x with
  | mk lines result => cases result <;> simp [Printing.bind, Printing.pure]

theorem traverse_append (f : α → Printing ε β) (as bs : List α) :
    traverse f (as ++ bs) =
      (traverse f as).bind fun xs => (traverse f bs).bind fun ys => .pure (xs ++ ys) := by
  induction as with
  | nil => simp [traverse]
  | cons a as ih =>
    simp only [List.cons_append, traverse, ih, bind_assoc, pure_bind]

theorem traverse_map {γ : Type*} (g : γ → α) (f : α → Printing ε β) (cs : List γ) :
    traverse f (cs.map g) = traverse (fun c => f (g c)) cs := by
  induction cs with
  | nil => rfl
  | cons c cs ih => simp only [List.map_cons, traverse, ih]

/-- When every item succeeds, what was printed is what the items printed. -/
theorem traverse_lines_of_ok {f : α → Printing ε β} {as : List α} {bs : List β}
    (h : (traverse f as).result = .ok bs) :
    (traverse f as).lines = as.flatMap fun a => (f a).lines := by
  induction as generalizing bs with
  | nil => rfl
  | cons a as ih =>
    simp only [traverse, bind_result, Except.bind_eq_ok] at h
    obtain ⟨b, hb, cs, hcs, -⟩ := h
    simp only [traverse]
    rw [bind_of_ok hb, bind_append_ok hcs, ih hcs]
    rfl

end Printing
