import Choreographer.Lib.Pairings
import Choreographer.Lib.Programs

namespace Choreographer.Lib.Debts

open Choreographer.Lib.Pairings Choreographer.Lib.Programs

variable {I : Interface} {α β ε ι : Type}

/-- A call and what it was answered. -/
abbrev Event (I : Interface) := (c : I.Call) × I.Answer c

/-- A world that may answer anything, and remembers what it was asked and answered. -/
def recording : Semantics I (List (Event I)) := fun c log a log' => log' = log ++ [⟨c, a⟩]

/-- What an event does to whoever made the call: nothing, put it in debt for something,
or pay such a debt. -/
inductive Entry (ι : Type)
  | nothing
  | gain (i : ι)
  | pay (i : ι)
deriving DecidableEq

abbrev Ledger (I : Interface) (ι : Type) := Event I → Entry ι

/-- A program that has one debt at most, pays it before it makes another, and ends with
a result and a debt of which `Q` holds. -/
def Carries (L : Ledger I ι) : Option ι → Prog I α → (α → Option ι → Prop) → Prop
  | held, .done a, Q => Q a held
  | held, .ask c k, Q => ∀ a, match L ⟨c, a⟩ with
    | .nothing => Carries L held (k a) Q
    | .gain i => held = none ∧ Carries L (some i) (k a) Q
    | .pay i => held = some i ∧ Carries L none (k a) Q

section Rules

variable {L : Ledger I ι} {held : Option ι}

theorem Carries.mono {p : Prog I α} {Q Q' : α → Option ι → Prop} (h : Carries L held p Q)
    (hq : ∀ a held, Q a held → Q' a held) : Carries L held p Q' := by
  induction p generalizing held with
  | done a => exact hq a held h
  | ask c k ih =>
    intro a
    have ha := h a
    cases hentry : L ⟨c, a⟩ with
    | nothing =>
      simp only [hentry] at ha ⊢
      exact ih a ha
    | gain i | pay i =>
      simp only [hentry] at ha ⊢
      exact ⟨ha.1, ih a ha.2⟩

theorem Carries.bind {p : Prog I α} {f : α → Prog I β} {R : α → Option ι → Prop}
    {Q : β → Option ι → Prop} (hp : Carries L held p R)
    (hf : ∀ a held, R a held → Carries L held (f a) Q) : Carries L held (p >>= f) Q := by
  induction p generalizing held with
  | done a => exact hf a held hp
  | ask c k ih =>
    intro a
    have ha := hp a
    cases hentry : L ⟨c, a⟩ with
    | nothing =>
      simp only [hentry] at ha ⊢
      exact ih a ha
    | gain i | pay i =>
      simp only [hentry] at ha ⊢
      exact ⟨ha.1, ih a ha.2⟩

/-- A program that fails in its first half ends there. -/
theorem Carries.bindE {p : ExceptT ε (Prog I) α} {f : α → ExceptT ε (Prog I) β}
    {R : Except ε α → Option ι → Prop} {Q : Except ε β → Option ι → Prop}
    (hp : Carries L held p.run R) (herror : ∀ e held, R (.error e) held → Q (.error e) held)
    (hf : ∀ a held, R (.ok a) held → Carries L held (f a).run Q) :
    Carries L held (p >>= f).run Q := by
  apply Carries.bind (f := ExceptT.bindCont f) hp
  intro r held hr
  cases r with
  | error e => exact herror e held hr
  | ok a => exact hf a held hr

theorem Carries.lift {p : Prog I α} {R : α → Option ι → Prop} (hp : Carries L held p R) :
    Carries L held (ExceptT.lift p : ExceptT ε (Prog I) α).run
      (fun r held => ∃ a, r = .ok a ∧ R a held) := by
  apply Carries.bind (f := fun a => Prog.done (Except.ok a)) hp
  exact fun a held ha => ⟨a, rfl, ha⟩

theorem carries_ofExcept {x : Except ε α} :
    Carries L held (ExceptT.mk (Prog.done x) : ExceptT ε (Prog I) α).run
      (fun r held' => r = x ∧ held' = held) := ⟨rfl, rfl⟩

end Rules

section Runs

variable [DecidableEq ι] (L : Ledger I ι)

/-- How often a debt for something was made. -/
def gained (i : ι) (log : List (Event I)) : Nat := log.countP (L · = .gain i)

/-- How often a debt for something was paid. -/
def paid (i : ι) (log : List (Event I)) : Nat := log.countP (L · = .pay i)

/-- What a client under a debt still has to do: pay it. -/
def Pays (held : Option ι) (p : Prog I Unit) : Prop := Carries L held p fun _ held => held = none

/-- The books balance: what was made and not paid is what the clients are under. -/
def Balanced (c : Config I (List (Event I))) : Prop :=
  ∃ debts, List.Forall₂ (Pays L) debts c.clients ∧
    ∀ i, gained L i c.world = paid L i c.world + debts.count (some i)

variable {L}

theorem count_set {debts : List (Option ι)} {n : Nat} {old : Option ι} (new : Option ι) (i : ι)
    (h : debts[n]? = some old) :
    (debts.set n new).count (some i) + (if old = some i then 1 else 0) =
      debts.count (some i) + (if new = some i then 1 else 0) := by
  obtain ⟨hn, rfl⟩ := List.getElem?_eq_some_iff.mp h
  have hpos : debts[n] = some i → 0 < debts.count (some i) := by
    intro hi
    exact List.count_pos_iff.mpr (hi ▸ List.getElem_mem hn)
  rw [List.count_set hn]
  simp only [beq_iff_eq]
  split_ifs with hold <;> grind

/-- One answered call keeps the books balanced. -/
theorem Balanced.advance {log : List (Event I)} {clients : List (Prog I Unit)} {n : Nat} {c : I.Call}
    {k : I.Answer c → Prog I Unit} (a : I.Answer c) (h : Balanced L ⟨log, clients⟩)
    (hget : clients[n]? = some (.ask c k)) :
    Balanced L ⟨log ++ [⟨c, a⟩], clients.set n (k a)⟩ := by
  obtain ⟨debts, hpays, hbooks⟩ := h
  obtain ⟨held, hheld, hcarries⟩ := forall₂_getElem hpays hget
  have ha := hcarries a
  cases hentry : L ⟨c, a⟩ with
  | nothing =>
    simp only [hentry] at ha
    refine ⟨debts.set n held, forall₂_set hpays ha, fun i => ?_⟩
    have hcount := count_set held i hheld
    have hbook := hbooks i
    simp [gained, paid, hentry] at hbook ⊢
    omega
  | gain j =>
    simp only [hentry] at ha
    refine ⟨debts.set n (some j), forall₂_set hpays ha.2, fun i => ?_⟩
    have hcount := count_set (some j) i hheld
    have hbook := hbooks i
    simp [gained, paid, hentry, ha.1] at hbook hcount ⊢
    split_ifs at hcount ⊢ <;> omega
  | pay j =>
    simp only [hentry] at ha
    refine ⟨debts.set n none, forall₂_set hpays ha.2, fun i => ?_⟩
    have hcount := count_set none i hheld
    have hbook := hbooks i
    simp [gained, paid, hentry, ha.1] at hbook hcount ⊢
    split_ifs at hcount ⊢ <;> omega

/-- However many clients run at once, however their calls are answered and in whatever
order, what they owe is what was gained and not paid. -/
theorem balanced_of_reachable {spawn : Prog I Unit → Prop} {c : Config I (List (Event I))}
    (hspawn : ∀ p, spawn p → Pays L none p)
    (h : Reachable recording spawn (fun _ _ => False) [] c) : Balanced L c := by
  induction h with
  | refl => exact ⟨[], .nil, fun i => rfl⟩
  | tail _ hstep ih =>
    cases hstep with
    | arrive hp =>
      obtain ⟨debts, hpays, hbooks⟩ := ih
      refine ⟨debts ++ [none], ?_, fun i => ?_⟩
      · exact List.rel_append hpays (.cons (hspawn _ hp) .nil)
      · rw [hbooks i]
        simp
    | @advance _ _ _ _ _ _ a hget hexec =>
      obtain rfl := hexec
      exact ih.advance a hget
    | drift h => exact h.elim

/-- When all have ended, everything is paid. -/
theorem Balanced.settled {c : Config I (List (Event I))} (h : Balanced L c)
    (hdone : ∀ p ∈ c.clients, p = .done ()) (i : ι) :
    gained L i c.world = paid L i c.world := by
  obtain ⟨debts, hpays, hbooks⟩ := h
  have hnone : ∀ held ∈ debts, held = none := by
    intro held hheld
    obtain ⟨n, hn, rfl⟩ := List.getElem_of_mem hheld
    have hn' : n < c.clients.length := hpays.length_eq ▸ hn
    have hpay := List.forall₂_iff_get.mp hpays |>.2 n hn hn'
    rw [hdone (c.clients.get ⟨n, hn'⟩) (List.get_mem _ _)] at hpay
    exact hpay
  have hcount : debts.count (some i) = 0 :=
    List.count_eq_zero.mpr fun hmem => nomatch hnone _ hmem
  rw [hbooks i, hcount, Nat.add_zero]

end Runs

end Choreographer.Lib.Debts
