import Mathlib.Data.List.Basic

/-! Reading values from the front of a stream. A reader is exact on a text when it reads the value and
leaves what follows, and fails on every part of the text that is cut off. Texts of exact readers can be
put one after the other. -/
namespace ByteStream

/-- Reads a value and yields what is left of the stream. -/
abbrev Reader (β ε α : Type*) := List β → Except ε (α × List β)

namespace Reader
variable {β ε α γ : Type*}

def pure (a : α) : Reader β ε α := fun s => .ok (a, s)

def bind (r : Reader β ε α) (f : α → Reader β ε γ) : Reader β ε γ := fun s =>
  (r s).bind fun p => f p.1 p.2

/-- So many values in a row. -/
def times (r : Reader β ε α) : Nat → Reader β ε (List α)
  | 0 => pure []
  | n + 1 => r.bind fun a => (times r n).bind fun as => pure (a :: as)

/-- The value of a computation that reads nothing. -/
def lift (x : Except ε α) : Reader β ε α := fun s => x.map fun a => (a, s)

theorem pure_bind (a : α) (f : α → Reader β ε γ) : (pure a).bind f = f a := rfl

theorem lift_ok_bind (a : α) (f : α → Reader β ε γ) : (lift (.ok a)).bind f = f a := rfl

theorem bind_assoc {δ : Type*} (r : Reader β ε α) (f : α → Reader β ε γ) (g : γ → Reader β ε δ) :
    (r.bind f).bind g = r.bind fun a => (f a).bind g := by
  funext s
  rw [bind, bind, bind]
  cases r s with
  | error e => rfl
  | ok p => rfl

/-- Changes the error. -/
def mapError (f : ε → ε) (r : Reader β ε α) : Reader β ε α := fun s => (r s).mapError f

/-- `r` reads `a` from the text `w`, and fails with an expected error when the text is cut off. -/
structure Exact (Expected : ε → Prop) (r : Reader β ε α) (w : List β) (a : α) : Prop where
  reads : ∀ rest, r (w ++ rest) = .ok (a, rest)
  fails : ∀ p, p <+: w → p ≠ w → ∃ e, r p = .error e ∧ Expected e

variable {Expected : ε → Prop} {r : Reader β ε α} {w w' : List β} {a : α}

theorem Exact.pure (a : α) : Exact Expected (pure (β := β) a) [] a where
  reads _ := rfl
  fails _ hp hne := absurd (List.prefix_nil.mp hp) hne

theorem Exact.bind {f : α → Reader β ε γ} {c : γ} (h : Exact Expected r w a)
    (h' : Exact Expected (f a) w' c) : Exact Expected (r.bind f) (w ++ w') c where
  reads rest := by
    rw [Reader.bind, List.append_assoc, h.reads]
    exact h'.reads rest
  fails p hp hne := by
    rw [Reader.bind]
    by_cases hw : w <+: p
    · -- the text is cut off in its second part
      obtain ⟨q, rfl⟩ := hw
      have hq : q ≠ w' := fun hq => hne (by rw [hq])
      rw [h.reads]
      exact h'.fails q ((List.prefix_append_right_inj w).mp hp) hq
    · have hpw : p <+: w := (List.prefix_or_prefix_of_prefix hp (List.prefix_append w w')).resolve_right hw
      obtain ⟨e, he, hexp⟩ := h.fails p hpw (fun heq => hw (heq ▸ List.prefix_rfl))
      exact ⟨e, by rw [he]; rfl, hexp⟩

theorem Exact.bind_pure {f : α → γ} (h : Exact Expected r w a) :
    Exact Expected (r.bind fun a => Reader.pure (f a)) w (f a) := by
  have hpure : Exact Expected (Reader.pure (f a)) ([] : List β) (f a) := Exact.pure (f a)
  have := h.bind (f := fun a => Reader.pure (f a)) hpure
  rwa [List.append_nil] at this

theorem Exact.mapError {f : ε → ε} (hf : ∀ e, Expected e → Expected (f e)) (h : Exact Expected r w a) :
    Exact Expected (r.mapError f) w a where
  reads rest := by
    rw [Reader.mapError, h.reads]
    rfl
  fails p hp hne := by
    obtain ⟨e, he, hexp⟩ := h.fails p hp hne
    exact ⟨f e, by rw [Reader.mapError, he]; rfl, hf e hexp⟩

/-- Values in a row are read from their texts in a row. -/
theorem Exact.times {write : α → List β} {as : List α} (h : ∀ a ∈ as, Exact Expected r (write a) a) :
    Exact Expected (r.times as.length) (as.flatMap write) as := by
  induction as with
  | nil => exact Exact.pure []
  | cons a as ih =>
    have hrest := ih fun b hb => h b (List.mem_cons_of_mem a hb)
    exact (h a List.mem_cons_self).bind hrest.bind_pure

/-! ### Loops -/

/-- Nothing is put back. -/
def Shortens (r : Reader β ε α) : Prop := ∀ s a rest, r s = .ok (a, rest) → rest.length ≤ s.length

/-- Something is read. -/
def Consumes (r : Reader β ε α) : Prop := ∀ s a rest, r s = .ok (a, rest) → rest.length < s.length

theorem shortens_pure (a : α) : Shortens (pure a : Reader β ε α) := by
  intro s a' rest hs
  exact Nat.le_of_eq (congrArg _ (Prod.mk.inj (Except.ok.inj hs)).2.symm)

theorem shortens_lift (x : Except ε α) : Shortens (lift x : Reader β ε α) := by
  intro s a' rest hs
  cases x with
  | error e => cases hs
  | ok a => exact Nat.le_of_eq (congrArg _ (Prod.mk.inj (Except.ok.inj hs)).2.symm)

theorem bind_eq_ok {f : α → Reader β ε γ} {s rest : List β} {c : γ}
    (h : r.bind f s = .ok (c, rest)) : ∃ a mid, r s = .ok (a, mid) ∧ f a mid = .ok (c, rest) := by
  rw [Reader.bind] at h
  cases hr : r s with
  | error e =>
    rw [hr] at h
    cases h
  | ok p =>
    rw [hr] at h
    exact ⟨p.1, p.2, rfl, h⟩

theorem Shortens.bind {f : α → Reader β ε γ} (h : Shortens r) (hf : ∀ a, Shortens (f a)) :
    Shortens (r.bind f) := by
  intro s c rest hs
  obtain ⟨a, mid, hr, hc⟩ := bind_eq_ok hs
  exact Nat.le_trans (hf a mid c rest hc) (h s a mid hr)

theorem Consumes.bind {f : α → Reader β ε γ} (h : Consumes r) (hf : ∀ a, Shortens (f a)) :
    Consumes (r.bind f) := by
  intro s c rest hs
  obtain ⟨a, mid, hr, hc⟩ := bind_eq_ok hs
  exact Nat.lt_of_le_of_lt (hf a mid c rest hc) (h s a mid hr)

/-- Rounds that each read something, until one of them yields the result. -/
def loop {σ : Type*} (round : σ → Reader β ε (σ ⊕ α)) (h : ∀ st, Consumes (round st)) (st : σ)
    (s : List β) : Except ε (α × List β) :=
  match _hs : round st s with
  | .error e => .error e
  | .ok (.inl st, rest) => loop round h st rest
  | .ok (.inr a, rest) => .ok (a, rest)
  termination_by s.length
  decreasing_by exact h _ _ _ _ _hs

/-- What is done behind a round. -/
def afterRound {σ : Type*} (round : σ → Reader β ε (σ ⊕ α)) (h : ∀ st, Consumes (round st)) :
    σ ⊕ α → Reader β ε α
  | .inl st => loop round h st
  | .inr a => pure a

theorem loop_eq {σ : Type*} (round : σ → Reader β ε (σ ⊕ α)) (h : ∀ st, Consumes (round st))
    (st : σ) : loop round h st = (round st).bind (afterRound round h) := by
  funext s
  rw [loop, Reader.bind]
  split
  next e hs => rw [hs]; rfl
  next st' rest hs => rw [hs]; rfl
  next a rest hs => rw [hs]; rfl

/-! ### Readers that do the same -/

/-- On every stream both readers read as much and their values are related, or both fail with the same
expected error. -/
def Alike (Expected : ε → Prop) (R : α → γ → Prop) (r : Reader β ε α) (r' : Reader β ε γ) : Prop :=
  ∀ s, (∃ a c rest, r s = .ok (a, rest) ∧ r' s = .ok (c, rest) ∧ R a c) ∨
    ∃ e, r s = .error e ∧ r' s = .error e ∧ Expected e

section Alike
variable {δ : Type*} {R : α → γ → Prop} {r' : Reader β ε γ}

theorem Alike.pure {a : α} {c : γ} (h : R a c) :
    Alike Expected R (pure a : Reader β ε α) (Reader.pure c) :=
  fun s => .inl ⟨a, c, s, rfl, rfl, h⟩

theorem Alike.lift {x : Except ε α} {y : Except ε γ} {a : α} {c : γ} (hx : x = .ok a) (hy : y = .ok c)
    (h : R a c) : Alike Expected R (lift x : Reader β ε α) (Reader.lift y) := by
  rw [hx, hy]
  exact .pure h

theorem Alike.bind {Q : δ → δ → Prop} {f : α → Reader β ε δ} {f' : γ → Reader β ε δ}
    (h : Alike Expected R r r') (hf : ∀ a c, R a c → Alike Expected Q (f a) (f' c)) :
    Alike Expected Q (r.bind f) (r'.bind f') := by
  intro s
  rcases h s with ⟨a, c, rest, hr, hr', hac⟩ | ⟨e, hr, hr', he⟩
  · rw [Reader.bind, Reader.bind, hr, hr']
    exact hf a c hac rest
  · rw [Reader.bind, Reader.bind, hr, hr']
    exact .inr ⟨e, rfl, rfl, he⟩

/-- Values in a row. -/
theorem Alike.times (h : Alike Expected Eq r r) (n : Nat) :
    Alike Expected (fun as cs => as = cs ∧ as.length = n) (r.times n) (r.times n) := by
  induction n with
  | zero => exact .pure ⟨rfl, rfl⟩
  | succ n ih =>
    refine h.bind fun a c hac => ih.bind fun as cs has => .pure ⟨?_, ?_⟩
    · rw [hac, has.1]
    · rw [List.length_cons, has.2]

/-- Loops whose rounds do the same do the same. -/
theorem Alike.loop {σ : Type*} {Q : α → α → Prop} {P : σ → σ → Prop}
    {round round' : σ → Reader β ε (σ ⊕ α)} {h : ∀ st, Consumes (round st)}
    {h' : ∀ st, Consumes (round' st)}
    (hround : ∀ st st', P st st' → Alike Expected (Sum.LiftRel P Q) (round st) (round' st'))
    {st st' : σ} (hst : P st st') :
    Alike Expected Q (Reader.loop round h st) (Reader.loop round' h' st') := by
  intro s
  induction hn : s.length using Nat.strongRecOn generalizing st st' s with
  | ind n ih =>
    rw [loop_eq, loop_eq]
    rcases hround st st' hst s with ⟨a, c, rest, hr, hr', hac⟩ | ⟨e, hr, hr', he⟩
    · rw [Reader.bind, Reader.bind, hr, hr']
      cases hac with
      | inl hp => exact ih rest.length (hn ▸ h st s _ rest hr) hp rest rfl
      | inr hq => exact .inl ⟨_, _, rest, rfl, rfl, hq⟩
    · rw [Reader.bind, Reader.bind, hr, hr']
      exact .inr ⟨e, rfl, rfl, he⟩

end Alike

end Reader

end ByteStream
