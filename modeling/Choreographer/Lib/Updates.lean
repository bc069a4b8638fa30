import Mathlib.Data.List.Basic
import Mathlib.Tactic.Common

namespace Choreographer.Lib.Updates

variable {ε σ τ α β : Type}

/-- A method of an object of type `σ` that may fail. The object is handed back
on failure too, in whatever shape the method had brought it by then. -/
abbrev Update (ε σ : Type) := ExceptT ε (StateM σ)

def Update.on (x : Update ε σ α) (s : σ) : Except ε α × σ := ExceptT.run x s

/-- Ask the object something that can be refused. -/
def check (f : σ → Except ε α) : Update ε σ α := ExceptT.mk fun s => (f s, s)

def require (p : Bool) (e : ε) : Except ε Unit := if p then .ok () else .error e

def okOr (o : Option α) (e : ε) : Except ε α :=
  match o with
  | some a => .ok a
  | none => .error e

@[simp] theorem require_eq_ok {p : Bool} {e : ε} {u : Unit} : require p e = .ok u ↔ p = true := by
  unfold require
  split <;> simp_all

@[simp] theorem okOr_eq_ok {o : Option α} {e : ε} {a : α} : okOr o e = .ok a ↔ o = some a := by
  cases o <;> simp [okOr]

@[simp] theorem except_bind_eq_ok {x : Except ε α} {f : α → Except ε β} {b : β} :
    (x >>= f) = .ok b ↔ ∃ a, x = .ok a ∧ f a = .ok b := by
  cases x <;> simp [bind, Except.bind]

theorem except_map_eq_ok {x : Except ε α} {f : α → β} {b : β} :
    f <$> x = .ok b ↔ ∃ a, x = .ok a ∧ f a = b := by
  cases x with
  | error e => simp
  | ok a => simp

@[simp] theorem mapError_eq_ok {ε' : Type} {x : Except ε α} {f : ε → ε'} {a : α} :
    x.mapError f = .ok a ↔ x = .ok a := by
  cases x with
  | error _ => simp [Except.mapError]
  | ok _ => simp [Except.mapError]

theorem except_mapM_eq_ok {f : α → Except ε β} {l : List α} {vs : List β}
    (h : l.map f = vs.map .ok) : l.mapM f = .ok vs := by
  induction l generalizing vs with
  | nil =>
    obtain rfl : vs = [] := by simpa using h.symm
    rfl
  | cons a rest ih =>
    cases vs with
    | nil => simp at h
    | cons v vs =>
      simp only [List.map_cons, List.cons.injEq] at h
      rw [List.mapM_cons, h.1, ih h.2]
      rfl

theorem mapM_eq_ok_map {f : α → Except ε β} {g : α → β} {l : List α}
    (h : ∀ a ∈ l, f a = .ok (g a)) : l.mapM f = .ok (l.map g) := by
  apply except_mapM_eq_ok
  rw [List.map_map]
  exact List.map_congr_left h

theorem map_eq_of_mapM_ok {f : α → Except ε β} {l : List α} {vs : List β}
    (h : l.mapM f = .ok vs) : l.map f = vs.map .ok := by
  induction l generalizing vs with
  | nil =>
    obtain rfl : [] = vs := Except.ok.inj h
    rfl
  | cons a rest ih =>
    simp only [List.mapM_cons, except_bind_eq_ok] at h
    obtain ⟨v, hv, vs', hvs, hcons⟩ := h
    obtain rfl := Except.ok.inj hcons
    simp [hv, ih hvs]

/-- What is seen of the results, from what is seen of each. -/
theorem map_of_mapM_ok {γ : Type} {f : α → Except ε β} {g : α → γ} {view : β → γ}
    (hf : ∀ a b, f a = .ok b → view b = g a) {l : List α} {vs : List β}
    (h : l.mapM f = .ok vs) : vs.map view = l.map g := by
  have hmap := map_eq_of_mapM_ok h
  clear h
  induction l generalizing vs with
  | nil => simpa using hmap.symm
  | cons a rest ih =>
    cases vs with
    | nil => simp at hmap
    | cons v vs =>
      obtain ⟨hhead, htail⟩ := List.cons.inj hmap
      rw [List.map_cons, hf a v hhead, ih htail, List.map_cons]

theorem eq_map_of_mapM_ok {f : α → Except ε β} {g : α → β} (hf : ∀ a b, f a = .ok b → b = g a)
    {l : List α} {vs : List β} (h : l.mapM f = .ok vs) : vs = l.map g := by
  have hview := @map_of_mapM_ok ε α β β f g id hf l vs h
  rwa [List.map_id] at hview

theorem getElem?_of_mapM_ok {f : α → Except ε β} {l : List α} {vs : List β}
    (h : l.mapM f = .ok vs) {k : Nat} {a : α} (hk : l[k]? = some a) :
    ∃ b, vs[k]? = some b ∧ f a = .ok b := by
  have hmap := congrArg (fun l : List (Except ε β) => l[k]?) (map_eq_of_mapM_ok h)
  simp only [List.getElem?_map, hk, Option.map_some] at hmap
  obtain ⟨b, hb, hab⟩ := Option.map_eq_some_iff.mp hmap.symm
  exact ⟨b, hb, hab.symm⟩

theorem mem_of_mapM_ok {f : α → Except ε β} {l : List α} {vs : List β} (h : l.mapM f = .ok vs)
    {b : β} : b ∈ vs ↔ ∃ a ∈ l, f a = .ok b := by
  have hmap := map_eq_of_mapM_ok h
  constructor
  · intro hb
    have hmem : (.ok b : Except ε β) ∈ l.map f := hmap ▸ List.mem_map_of_mem hb
    exact List.mem_map.mp hmem
  · rintro ⟨a, ha, hab⟩
    have hmem : (.ok b : Except ε β) ∈ vs.map .ok := hmap ▸ hab ▸ List.mem_map_of_mem ha
    obtain ⟨c, hc, hcb⟩ := List.mem_map.mp hmem
    exact Except.ok.inj hcb ▸ hc

theorem exists_of_mapM_ok {f : α → Except ε β} {l : List α} {vs : List β} (h : l.mapM f = .ok vs)
    {a : α} (ha : a ∈ l) : ∃ b ∈ vs, f a = .ok b := by
  have hmem : f a ∈ vs.map .ok := map_eq_of_mapM_ok h ▸ List.mem_map_of_mem ha
  obtain ⟨b, hb, hab⟩ := List.mem_map.mp hmem
  exact ⟨b, hb, hab.symm⟩

def Succeeds (x : Update ε σ α) (s : σ) (a : α) (s' : σ) : Prop := x.on s = (.ok a, s')

@[simp] theorem succeeds_pure {a b : α} {s s' : σ} :
    Succeeds (pure b : Update ε σ α) s a s' ↔ b = a ∧ s' = s := by
  have h : (pure b : Update ε σ α).on s = (.ok b, s) := rfl
  simp [Succeeds, h, eq_comm]

@[simp] theorem succeeds_check {f : σ → Except ε α} {a : α} {s s' : σ} :
    Succeeds (check f) s a s' ↔ f s = .ok a ∧ s' = s := by
  have h : (check f).on s = (f s, s) := rfl
  simp [Succeeds, h, eq_comm]

@[simp] theorem succeeds_get {s a s' : σ} :
    Succeeds (get : Update ε σ σ) s a s' ↔ a = s ∧ s' = s := by
  have h : (get : Update ε σ σ).on s = (.ok s, s) := rfl
  simp [Succeeds, h, eq_comm]

@[simp] theorem succeeds_modify {f : σ → σ} {u : PUnit} {s s' : σ} :
    Succeeds (modify f : Update ε σ PUnit) s u s' ↔ s' = f s := by
  have h : (modify f : Update ε σ PUnit).on s = (.ok ⟨⟩, f s) := rfl
  simp [Succeeds, h, eq_comm]

theorem pure_on (a : α) (s : σ) : (pure a : Update ε σ α).on s = (.ok a, s) := rfl

theorem throw_on (e : ε) (s : σ) : (throw e : Update ε σ α).on s = (.error e, s) := rfl

theorem check_on (f : σ → Except ε α) (s : σ) : (check f).on s = (f s, s) := rfl

theorem modify_on (f : σ → σ) (s : σ) : (modify f : Update ε σ PUnit).on s = (.ok ⟨⟩, f s) := rfl

theorem bind_on (x : Update ε σ α) (f : α → Update ε σ β) (s : σ) :
    (x >>= f).on s = match x.on s with
      | (.ok a, t) => (f a).on t
      | (.error e, t) => (.error e, t) := by
  change (ExceptT.bindCont f (x.on s).1 : StateM σ (Except ε β)) (x.on s).2 = _
  rcases x.on s with ⟨r, t⟩
  cases r <;> rfl

@[simp] theorem succeeds_bind {x : Update ε σ α} {f : α → Update ε σ β} {b : β} {s s' : σ} :
    Succeeds (x >>= f) s b s' ↔ ∃ a t, Succeeds x s a t ∧ Succeeds (f a) t b s' := by
  unfold Succeeds
  rw [bind_on]
  rcases x.on s with ⟨r, t⟩
  cases r with
  | error e => simp
  | ok a => simp

def Refuses (x : Update ε σ α) (s : σ) (e : ε) : Prop := (x.on s).1 = .error e

theorem refuses_check {f : σ → Except ε α} {e : ε} {s : σ} :
    Refuses (check f) s e ↔ f s = .error e := Iff.rfl

theorem refuses_bind {x : Update ε σ α} {f : α → Update ε σ β} {e : ε} {s : σ} :
    Refuses (x >>= f) s e ↔ Refuses x s e ∨ ∃ a t, Succeeds x s a t ∧ Refuses (f a) t e := by
  unfold Succeeds Refuses
  rw [bind_on]
  rcases x.on s with ⟨r, t⟩
  cases r with
  | error e => simp
  | ok a => simp

/-- A method that only looks. -/
def ReadOnly (x : Update ε σ α) : Prop := ∀ s, (x.on s).2 = s

/-- A method that cannot be refused. -/
def Total (x : Update ε σ α) : Prop := ∀ s e, (x.on s).1 ≠ .error e

/-- A method that leaves the object as it was when it fails. -/
def Atomic (x : Update ε σ α) : Prop := ∀ s e, (x.on s).1 = .error e → (x.on s).2 = s

theorem readOnly_check (f : σ → Except ε α) : ReadOnly (check f) := fun _ => rfl

theorem total_pure (a : α) : Total (pure a : Update ε σ α) := by
  intro s e
  change (Except.ok a : Except ε α) ≠ _
  simp

theorem total_modify (f : σ → σ) : Total (modify f : Update ε σ PUnit) := by
  intro s e
  change (Except.ok PUnit.unit : Except ε PUnit) ≠ _
  simp

theorem Total.bind {x : Update ε σ α} {f : α → Update ε σ β} (hx : Total x)
    (hf : ∀ a, Total (f a)) : Total (x >>= f) := by
  intro s e
  rw [bind_on]
  have h := hx s
  generalize x.on s = p at h ⊢
  obtain ⟨r, t⟩ := p
  cases r with
  | error e => exact absurd rfl (h e)
  | ok a => exact hf a t e

theorem Total.atomic {x : Update ε σ α} (h : Total x) : Atomic x := fun s e hs => absurd hs (h s e)

theorem ReadOnly.bind {x : Update ε σ α} {f : α → Update ε σ β} (hx : ReadOnly x)
    (hf : ∀ a, Atomic (f a)) : Atomic (x >>= f) := by
  intro s e
  rw [bind_on]
  have h := hx s
  generalize x.on s = p at h ⊢
  obtain ⟨r, t⟩ := p
  simp only at h
  subst h
  cases r with
  | error e => exact fun _ => rfl
  | ok a => exact hf a t e

theorem Atomic.bind {x : Update ε σ α} {f : α → Update ε σ β} (hx : Atomic x)
    (hf : ∀ a, Total (f a)) : Atomic (x >>= f) := by
  intro s e
  rw [bind_on]
  have h := hx s
  generalize x.on s = p at h ⊢
  obtain ⟨r, t⟩ := p
  cases r with
  | error e => exact fun _ => h e rfl
  | ok a => exact fun he => absurd he (hf a t e)

theorem Atomic.outcome {x : Update ε σ α} (h : Atomic x) (s : σ) :
    (∃ e, x.on s = (.error e, s)) ∨ ∃ a, Succeeds x s a (x.on s).2 := by
  cases hr : (x.on s).1 with
  | error e => exact .inl ⟨e, Prod.ext hr (h s e hr)⟩
  | ok a => exact .inr ⟨a, Prod.ext hr rfl⟩

/-- Run a method on the first element of a list that is `wanted`, in place. -/
def onFirst (wanted : τ → Bool) (x : Update ε τ α) : List τ → Option (Except ε α × List τ)
  | [] => none
  | t :: ts =>
    if wanted t then some ((x.on t).1, (x.on t).2 :: ts)
    else (onFirst wanted x ts).map fun r => (r.1, t :: r.2)

theorem onFirst_cases (wanted : τ → Bool) (x : Update ε τ α) (ts : List τ) :
    (ts.find? wanted = none ∧ onFirst wanted x ts = none) ∨
      ∃ before t after, ts = before ++ t :: after ∧ ts.find? wanted = some t ∧
        (∀ u ∈ before, wanted u = false) ∧ wanted t = true ∧
        onFirst wanted x ts = some ((x.on t).1, before ++ (x.on t).2 :: after) := by
  induction ts with
  | nil => exact .inl ⟨rfl, rfl⟩
  | cons t ts ih =>
    by_cases ht : wanted t = true
    · exact .inr ⟨[], t, ts, rfl, by simp [ht], by simp, ht, by simp [onFirst, ht]⟩
    · simp only [Bool.not_eq_true] at ht
      rcases ih with ⟨hf, ho⟩ | ⟨before, u, after, rfl, hf, hb, hu, ho⟩
      · exact .inl ⟨by simp [ht, hf], by simp [onFirst, ht, ho]⟩
      · refine .inr ⟨t :: before, u, after, rfl, by simp [ht, hf], ?_, hu, by simp [onFirst, ht, ho]⟩
        intro v hv
        rcases List.mem_cons.mp hv with rfl | hv
        · exact ht
        · exact hb v hv

/-- Run a method on the first wanted element of a list that the object holds. -/
def within (items : σ → List τ) (store : List τ → σ → σ) (wanted : τ → Bool) (missing : ε)
    (x : Update ε τ α) : Update ε σ α :=
  ExceptT.mk fun s =>
    match onFirst wanted x (items s) with
    | none => (.error missing, s)
    | some (r, ts) => (r, store ts s)

section Within

variable {items : σ → List τ} {store : List τ → σ → σ} {wanted : τ → Bool} {missing : ε}
  {x : Update ε τ α}

theorem succeeds_within {s s' : σ} {a : α} :
    Succeeds (within items store wanted missing x) s a s' ↔
      ∃ before t after t', items s = before ++ t :: after ∧ (items s).find? wanted = some t ∧
        (∀ u ∈ before, wanted u = false) ∧ wanted t = true ∧ Succeeds x t a t' ∧
        s' = store (before ++ t' :: after) s := by
  have hw : (within items store wanted missing x).on s = match onFirst wanted x (items s) with
      | none => (.error missing, s)
      | some (r, ts) => (r, store ts s) := rfl
  unfold Succeeds
  rw [hw]
  rcases onFirst_cases wanted x (items s) with ⟨hf, ho⟩ | ⟨before, t, after, hi, hf, hb, ht, ho⟩
  · simp [ho, hf]
  · rw [ho]
    simp only [Prod.mk.injEq]
    constructor
    · rintro ⟨hr, rfl⟩
      exact ⟨before, t, after, (x.on t).2, hi, hf, hb, ht, Prod.ext hr rfl, rfl⟩
    · rintro ⟨b, u, c, u', hi', hf', hb', hu, hr, rfl⟩
      have htu : t = u := by simpa [hf] using hf'
      subst htu
      have hlen : before = b := by
        rw [hi] at hi'
        have h1 := congrArg (List.takeWhile fun v => !wanted v) hi'
        rw [List.takeWhile_append_of_pos (by simpa using hb),
          List.takeWhile_append_of_pos (by simpa using hb')] at h1
        simpa [ht] using h1
      subst hlen
      rw [hi] at hi'
      have hac : after = c := by simpa using hi'
      subst hac
      simp [hr]

theorem Atomic.within (hx : Atomic x) (hs : ∀ s, store (items s) s = s) :
    Atomic (within items store wanted missing x) := by
  intro s e
  change (match onFirst wanted x (items s) with
      | none => (.error missing, s)
      | some (r, ts) => (r, store ts s) : Except ε α × σ).1 = .error e →
    (match onFirst wanted x (items s) with
      | none => (.error missing, s)
      | some (r, ts) => (r, store ts s) : Except ε α × σ).2 = s
  rcases onFirst_cases wanted x (items s) with ⟨-, ho⟩ | ⟨before, t, after, hi, -, -, -, ho⟩
  · simp [ho]
  · rw [ho]
    intro he
    rw [hx t e he, ← hi]
    exact hs s

end Within

end Choreographer.Lib.Updates
