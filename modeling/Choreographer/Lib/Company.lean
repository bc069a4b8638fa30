import Choreographer.Lib.Programs

namespace Choreographer.Lib.Company

open Choreographer.Lib.Programs

variable {I : Interface} {W S α β ε : Type}

/-- A program run among others, who move between its calls. -/
inductive Amid (exec : Semantics I W) (others : W → W → Prop) : Prog I α → W → α → W → Prop
  | done (a : α) (w : W) : Amid exec others (.done a) w a w
  | ask {c : I.Call} {k : I.Answer c → Prog I α} {w w' w'' : W} {a : I.Answer c} {b : α} :
      exec c w a w' → Amid exec others (k a) w' b w'' → Amid exec others (.ask c k) w b w''
  | drift {p : Prog I α} {w v w' : W} {b : α} :
      others w v → Amid exec others p v b w' → Amid exec others p w b w'

section Amid

variable {exec : Semantics I W} {others : W → W → Prop} {w v w' : W}

/-- Nobody has to move. -/
theorem amid_interpret {answer : (c : I.Call) → W → I.Answer c × W} (p : Prog I α) (w : W) :
    Amid (fun c w a w' => answer c w = (a, w')) others p w (p.interpret answer w).1
      (p.interpret answer w).2 := by
  induction p generalizing w with
  | done a => exact .done a w
  | ask c k ih => exact .ask rfl (ih _ _)

end Amid

/-- A program whose calls, in a world that has one answer to each, are all of a kind. -/
def Minds (own : I.Call → Prop) (answer : (c : I.Call) → S → I.Answer c × S) :
    Prog I α → S → Prop
  | .done _, _ => True
  | .ask c k, s => own c ∧ Minds own answer (k (answer c s).1) (answer c s).2

section Minds

variable {own : I.Call → Prop} {answer : (c : I.Call) → S → I.Answer c × S} {s : S}

theorem minds_bind {p : Prog I α} {f : α → Prog I β} :
    Minds own answer (p >>= f) s ↔ Minds own answer p s ∧
      Minds own answer (f (p.interpret answer s).1) (p.interpret answer s).2 := by
  induction p generalizing s with
  | done a => exact (true_and _).symm.to_iff
  | ask c k ih =>
    have hstep := ih (answer c s).1 (s := (answer c s).2)
    exact (and_congr_right fun _ => hstep).trans and_assoc.symm

theorem minds_bindE {p : ExceptT ε (Prog I) α} {f : α → ExceptT ε (Prog I) β}
    (hp : Minds own answer p.run s) (hf : ∀ a v, p.run.interpret answer s = (.ok a, v) →
      Minds own answer (f a).run v) : Minds own answer (p >>= f).run s := by
  have hrun : (p >>= f).run = p.run >>= ExceptT.bindCont f := rfl
  rw [hrun, minds_bind]
  refine ⟨hp, ?_⟩
  rcases hresult : p.run.interpret answer s with ⟨e | a, v⟩
  · trivial
  · exact hf a v hresult

theorem Minds.mono {own' : I.Call → Prop} {p : Prog I α} (h : Minds own answer p s)
    (hown : ∀ c, own c → own' c) : Minds own' answer p s := by
  induction p generalizing s with
  | done a => trivial
  | ask c k ih => exact ⟨hown c h.1, ih _ h.2⟩

/-- What is the program's own is not touched by the others, and its calls ask for nothing else:
then it comes to what it comes to alone. `past` holds of all that lies before the end. -/
theorem Amid.alone {exec : Semantics I W} {others : W → W → Prop} (past : W → Prop)
    (same : W → S → Prop) (hback : ∀ c w a w', exec c w a w' → past w' → past w)
    (hcall : ∀ c w a w' s, own c → same w s → past w' → exec c w a w' →
      (answer c s).1 = a ∧ same w' (answer c s).2)
    (hothers : ∀ w v, others w v → (past v → past w) ∧ ∀ s, same w s → same v s)
    {p : Prog I α} {w w' : W} {r : α} (h : Amid exec others p w r w') (hpast : past w')
    (hminds : Minds own answer p s) (hsame : same w s) :
    (p.interpret answer s).1 = r ∧ same w' (p.interpret answer s).2 := by
  suffices hboth : past w ∧ ∀ s, Minds own answer p s → same w s →
      (p.interpret answer s).1 = r ∧ same w' (p.interpret answer s).2 from
    hboth.2 s hminds hsame
  clear hminds hsame
  induction h with
  | done a w => exact ⟨hpast, fun s _ hsame => ⟨rfl, hsame⟩⟩
  | ask hexec _ ih =>
    obtain ⟨hmid, hrest⟩ := ih hpast
    refine ⟨hback _ _ _ _ hexec hmid, fun s hminds hsame => ?_⟩
    obtain ⟨rfl, hnext⟩ := hcall _ _ _ _ s hminds.1 hsame hmid hexec
    exact hrest _ hminds.2 hnext
  | drift hmove _ ih =>
    obtain ⟨hmid, hrest⟩ := ih hpast
    obtain ⟨hbefore, hkept⟩ := hothers _ _ hmove
    exact ⟨hbefore hmid, fun s hminds hsame => hrest s hminds (hkept s hsame)⟩

end Minds

end Choreographer.Lib.Company
