import Mathlib.Logic.Relation

namespace Choreographer.Lib.Programs

/-- The calls a program may make on the world around it, and what each answers. -/
structure Interface where
  Call : Type
  Answer : Call → Type

/-- A program is a value or a call and what to do with its answer. Everything
between two calls is local, so a call is the unit of interleaving. -/
inductive Prog (I : Interface) (α : Type) where
  | done (a : α)
  | ask (c : I.Call) (k : I.Answer c → Prog I α)

variable {I : Interface} {α β W ε : Type}

namespace Prog

def bind : Prog I α → (α → Prog I β) → Prog I β
  | .done a, f => f a
  | .ask c k, f => .ask c (fun a => (k a).bind f)

instance : Monad (Prog I) where
  pure := .done
  bind := bind

def call (c : I.Call) : Prog I (I.Answer c) := .ask c .done

@[simp] theorem done_bind (a : α) (f : α → Prog I β) : (Prog.done a >>= f) = f a := rfl

@[simp] theorem pure_bind (a : α) (f : α → Prog I β) : ((pure a : Prog I α) >>= f) = f a := rfl

@[simp] theorem call_bind (c : I.Call) (f : I.Answer c → Prog I β) :
    (call c >>= f) = .ask c f := rfl

end Prog

theorem bindE_assoc {γ : Type} (p : ExceptT ε (Prog I) α) (f : α → ExceptT ε (Prog I) β)
    (g : β → ExceptT ε (Prog I) γ) : p >>= f >>= g = p >>= fun a => f a >>= g := by
  induction p with
  | done r =>
    cases r with
    | error e => rfl
    | ok a => rfl
  | ask c k ih => exact congrArg (Prog.ask c) (funext ih)

theorem pureE_bind (a : α) (f : α → ExceptT ε (Prog I) β) :
    (pure a : ExceptT ε (Prog I) α) >>= f = f a := rfl

/-- What a call may answer and do to the world; external calls are relations
because nothing is known of their answers. -/
abbrev Semantics (I : Interface) (W : Type) := (c : I.Call) → W → I.Answer c → W → Prop

structure Config (I : Interface) (W : Type) where
  world : W
  clients : List (Prog I Unit)

/-- One step of a system of clients: a new client arrives, some client's next
call is answered, or the world moves by itself. A client that is never
scheduled again has crashed. -/
inductive Step (exec : Semantics I W) (spawn : Prog I Unit → Prop) (env : W → W → Prop) :
    Config I W → Config I W → Prop
  | arrive {w cs p} : spawn p → Step exec spawn env ⟨w, cs⟩ ⟨w, cs ++ [p]⟩
  | advance {w w' : W} {cs : List (Prog I Unit)} {i : Nat} {c : I.Call}
      {k : I.Answer c → Prog I Unit} {a : I.Answer c} :
      cs[i]? = some (.ask c k) → exec c w a w' →
      Step exec spawn env ⟨w, cs⟩ ⟨w', cs.set i (k a)⟩
  | drift {w w' cs} : env w w' → Step exec spawn env ⟨w, cs⟩ ⟨w', cs⟩

def Reachable (exec : Semantics I W) (spawn : Prog I Unit → Prop) (env : W → W → Prop)
    (w₀ : W) : Config I W → Prop :=
  Relation.ReflTransGen (Step exec spawn env) ⟨w₀, []⟩

/-- What every step of every client must keep and may do: a global invariant
and the changes the others have to expect. -/
structure Protocol (W : Type) where
  inv : W → Prop
  guar : W → W → Prop

def Stable (P : Protocol W) (K : W → Prop) : Prop :=
  ∀ w w', P.inv w → P.inv w' → P.guar w w' → K w → K w'

/-- A program that, knowing `K`, keeps the protocol at each of its calls
whatever the others do in between, and knows `Q` of its result at the end. -/
def Safe (exec : Semantics I W) (P : Protocol W) :
    (W → Prop) → Prog I α → (α → W → Prop) → Prop
  | K, .done a, Q => ∀ w, P.inv w → K w → Q a w
  | K, .ask c k, Q => ∃ K' : I.Answer c → W → Prop, (∀ a, Stable P (K' a)) ∧
      (∀ w a w', P.inv w → K w → exec c w a w' → P.inv w' ∧ P.guar w w' ∧ K' a w') ∧
      ∀ a, Safe exec P (K' a) (k a) Q

section Rules

variable {exec : Semantics I W} {P : Protocol W} {K : W → Prop}

theorem stable_true : Stable P (fun _ => True) := fun _ _ _ _ _ h => h

theorem Stable.and {K₁ K₂ : W → Prop} (h₁ : Stable P K₁) (h₂ : Stable P K₂) :
    Stable P (fun w => K₁ w ∧ K₂ w) :=
  fun w w' hi hi' hg h => ⟨h₁ w w' hi hi' hg h.1, h₂ w w' hi hi' hg h.2⟩

theorem stable_forall {ι : Type} {L : ι → W → Prop} (h : ∀ i, Stable P (L i)) :
    Stable P (fun w => ∀ i, L i w) :=
  fun w w' hi hi' hg hw i => h i w w' hi hi' hg (hw i)

theorem stable_const (p : Prop) : Stable P (fun _ => p) := fun _ _ _ _ _ h => h

theorem Safe.mono {K₂ : W → Prop} {p : Prog I α} {Q Q₂ : α → W → Prop}
    (h : Safe exec P K p Q) (hk : ∀ w, P.inv w → K₂ w → K w)
    (hq : ∀ a w, P.inv w → Q a w → Q₂ a w) : Safe exec P K₂ p Q₂ := by
  induction p generalizing K K₂ with
  | done a => exact fun w hi hw => hq a w hi (h w hi (hk w hi hw))
  | ask c k ih =>
    obtain ⟨K', hs, hstep, hnext⟩ := h
    refine ⟨K', hs, ?_, fun a => ih a (hnext a) (fun _ _ hw => hw)⟩
    exact fun w a w' hi hw he => hstep w a w' hi (hk w hi hw) he

theorem Safe.bind {p : Prog I α} {f : α → Prog I β} {R : α → W → Prop} {Q : β → W → Prop}
    (hp : Safe exec P K p R) (hf : ∀ a, Safe exec P (R a) (f a) Q) :
    Safe exec P K (p >>= f) Q := by
  induction p generalizing K with
  | done a => exact (hf a).mono (fun w hi hw => hp w hi hw) (fun _ _ _ h => h)
  | ask c k ih =>
    obtain ⟨K', hs, hstep, hnext⟩ := hp
    exact ⟨K', hs, hstep, fun a => ih a (hnext a)⟩

/-- What nobody disturbs is still known at the end. -/
theorem Safe.frame {F : W → Prop} {p : Prog I α} {Q : α → W → Prop} (hF : Stable P F)
    (h : Safe exec P K p Q) : Safe exec P (fun w => K w ∧ F w) p (fun a w => Q a w ∧ F w) := by
  induction p generalizing K with
  | done a => exact fun w hi hw => ⟨h w hi hw.1, hw.2⟩
  | ask c k ih =>
    obtain ⟨K', hs, hstep, hnext⟩ := h
    refine ⟨fun a w => K' a w ∧ F w, fun a => (hs a).and hF, ?_, fun a => ih a (hnext a)⟩
    intro w a w' hi hw he
    obtain ⟨hi', hg, hk⟩ := hstep w a w' hi hw.1 he
    exact ⟨hi', hg, hk, hF w w' hi hi' hg hw.2⟩

theorem safe_call (c : I.Call) {R : I.Answer c → W → Prop} (hs : ∀ a, Stable P (R a))
    (h : ∀ w a w', P.inv w → K w → exec c w a w' → P.inv w' ∧ P.guar w w' ∧ R a w') :
    Safe exec P K (Prog.call c) R :=
  ⟨R, hs, h, fun _ _ _ hw => hw⟩

/-- Programs that may fail with an error; a failed one claims nothing more. -/
def Expects (Q : α → W → Prop) : Except ε α → W → Prop
  | .ok a, w => Q a w
  | .error _, _ => True

structure SafeE (exec : Semantics I W) (P : Protocol W) (K : W → Prop)
    (p : ExceptT ε (Prog I) α) (Q : α → W → Prop) : Prop where
  run : Safe exec P K p.run (Expects Q)

theorem SafeE.pure {a : α} {Q : α → W → Prop} (h : ∀ w, P.inv w → K w → Q a w) :
    SafeE exec P K (pure a : ExceptT ε (Prog I) α) Q := ⟨h⟩

theorem SafeE.throw (e : ε) {Q : α → W → Prop} :
    SafeE exec P K (throw e : ExceptT ε (Prog I) α) Q := ⟨fun _ _ _ => trivial⟩

theorem SafeE.lift {p : Prog I α} {Q : α → W → Prop} (h : Safe exec P K p Q) :
    SafeE exec P K (ExceptT.lift p : ExceptT ε (Prog I) α) Q :=
  ⟨Safe.bind (f := fun a => Prog.done (Except.ok a)) h (fun _ _ _ hw => hw)⟩

theorem SafeE.bind {p : ExceptT ε (Prog I) α} {f : α → ExceptT ε (Prog I) β}
    {R : α → W → Prop} {Q : β → W → Prop} (hp : SafeE exec P K p R)
    (hf : ∀ a, SafeE exec P (R a) (f a) Q) : SafeE exec P K (p >>= f) Q := by
  refine ⟨Safe.bind (f := ExceptT.bindCont f) hp.run (fun r => ?_)⟩
  cases r with
  | ok a => exact (hf a).run
  | error e => exact fun _ _ _ => trivial

theorem SafeE.mono {K₂ : W → Prop} {p : ExceptT ε (Prog I) α} {Q Q₂ : α → W → Prop}
    (h : SafeE exec P K p Q) (hk : ∀ w, P.inv w → K₂ w → K w)
    (hq : ∀ a w, P.inv w → Q a w → Q₂ a w) : SafeE exec P K₂ p Q₂ := by
  refine ⟨Safe.mono h.run hk (fun r w hi hr => ?_)⟩
  cases r with
  | ok a => exact hq a w hi hr
  | error e => trivial

theorem SafeE.frame {F : W → Prop} {p : ExceptT ε (Prog I) α} {Q : α → W → Prop}
    (hF : Stable P F) (h : SafeE exec P K p Q) :
    SafeE exec P (fun w => K w ∧ F w) p (fun a w => Q a w ∧ F w) := by
  refine ⟨Safe.mono (Safe.frame hF h.run) (fun _ _ hw => hw) (fun r w _ hr => ?_)⟩
  cases r with
  | ok a => exact hr
  | error e => trivial

/-- Something done in between that needs nothing and leaves what is known. -/
theorem SafeE.andThen {F : W → Prop} {p : ExceptT ε (Prog I) α} {f : α → ExceptT ε (Prog I) β}
    {R : α → W → Prop} {Q : β → W → Prop} (hF : Stable P F)
    (hp : SafeE exec P (fun _ => True) p R)
    (hf : ∀ a, SafeE exec P (fun w => R a w ∧ F w) (f a) Q) : SafeE exec P F (p >>= f) Q := by
  refine SafeE.bind (R := fun a w => R a w ∧ F w) ?_ hf
  exact (hp.frame hF).mono (fun w _ hw => ⟨trivial, hw⟩) (fun _ _ _ h => h)

theorem SafeE.ofExcept {x : Except ε α} {f : α → ExceptT ε (Prog I) β} {Q : β → W → Prop}
    (hf : ∀ a, x = .ok a → SafeE exec P K (f a) Q) :
    SafeE exec P K (ExceptT.mk (Prog.done x) >>= f) Q := by
  cases x with
  | ok a => exact ⟨(hf a rfl).run⟩
  | error e => exact ⟨fun _ _ _ => trivial⟩

end Rules

/-- The whole system keeps the protocol: every client always has some stable
knowledge from which the rest of its program is safe. -/
theorem inv_of_reachable {exec : Semantics I W} {P : Protocol W} {spawn : Prog I Unit → Prop}
    {env : W → W → Prop} {w₀ : W} {c : Config I W}
    (hspawn : ∀ p, spawn p → Safe exec P (fun _ => True) p (fun _ _ => True))
    (henv : ∀ w w', P.inv w → env w w' → P.inv w' ∧ P.guar w w') (h₀ : P.inv w₀)
    (hr : Reachable exec spawn env w₀ c) : P.inv c.world := by
  suffices h : P.inv c.world ∧ ∀ p ∈ c.clients, ∃ K : W → Prop, Stable P K ∧ K c.world ∧
      Safe exec P K p (fun _ _ => True) from h.1
  induction hr with
  | refl => exact ⟨h₀, by simp⟩
  | tail _ hstep ih =>
    obtain ⟨hi, hc⟩ := ih
    cases hstep with
    | arrive hp =>
      refine ⟨hi, fun p hm => ?_⟩
      rcases List.mem_append.mp hm with hm | hm
      · exact hc p hm
      · rw [List.mem_singleton.mp hm]
        exact ⟨_, stable_true, trivial, hspawn _ hp⟩
    | @advance w w' cs i call k a hget hexec =>
      obtain ⟨K, hs, hk, K', hs', hcall, hnext⟩ := hc _ (List.mem_of_getElem? hget)
      obtain ⟨hi', hg, hk'⟩ := hcall w a w' hi hk hexec
      refine ⟨hi', fun p hm => ?_⟩
      rcases List.mem_or_eq_of_mem_set hm with hm | rfl
      · obtain ⟨K₁, hs₁, hk₁, hp₁⟩ := hc p hm
        exact ⟨K₁, hs₁, hs₁ w w' hi hi' hg hk₁, hp₁⟩
      · exact ⟨K' a, hs' a, hk', hnext a⟩
    | drift he =>
      obtain ⟨hi', hg⟩ := henv _ _ hi he
      refine ⟨hi', fun p hm => ?_⟩
      obtain ⟨K₁, hs₁, hk₁, hp₁⟩ := hc p hm
      exact ⟨K₁, hs₁, hs₁ _ _ hi hi' hg hk₁, hp₁⟩

/-- A program run by itself from one world to another, whatever its calls may
answer. -/
inductive Returns (exec : Semantics I W) : Prog I α → W → α → W → Prop
  | done (a : α) (w : W) : Returns exec (.done a) w a w
  | ask {c : I.Call} {k : I.Answer c → Prog I α} {w w' w'' : W} {a : I.Answer c} {b : α} :
      exec c w a w' → Returns exec (k a) w' b w'' → Returns exec (.ask c k) w b w''

section Returns

variable {exec : Semantics I W} {w w' : W}

theorem returns_done {a b : α} : Returns exec (.done a) w b w' ↔ b = a ∧ w' = w := by
  constructor
  · rintro ⟨⟩
    exact ⟨rfl, rfl⟩
  · rintro ⟨rfl, rfl⟩
    exact .done b w'

theorem returns_call {c : I.Call} {a : I.Answer c} :
    Returns exec (Prog.call c) w a w' ↔ exec c w a w' := by
  constructor
  · intro h
    cases h with
    | ask hc hk =>
      obtain ⟨rfl, rfl⟩ := returns_done.mp hk
      exact hc
  · exact fun h => .ask h (.done a w')

theorem returns_bind {p : Prog I α} {f : α → Prog I β} {b : β} :
    Returns exec (p >>= f) w b w' ↔
      ∃ a v, Returns exec p w a v ∧ Returns exec (f a) v b w' := by
  constructor
  · intro h
    induction p generalizing w with
    | done a => exact ⟨a, w, .done a w, h⟩
    | ask c k ih =>
      cases h with
      | ask hc hk =>
        obtain ⟨a, v, hp, hf⟩ := ih _ hk
        exact ⟨a, v, .ask hc hp, hf⟩
  · rintro ⟨a, v, hp, hf⟩
    induction hp with
    | done a v => exact hf
    | ask hc _ ih => exact .ask hc (ih hf)

theorem returns_lift {p : Prog I α} {r : Except ε α} :
    Returns exec (ExceptT.lift p : ExceptT ε (Prog I) α).run w r w' ↔
      ∃ a, Returns exec p w a w' ∧ r = .ok a := by
  have h : (ExceptT.lift p : ExceptT ε (Prog I) α).run = p >>= fun a => Prog.done (Except.ok a) := rfl
  rw [h, returns_bind]
  simp only [returns_done]
  constructor
  · rintro ⟨a, v, hp, rfl, rfl⟩
    exact ⟨a, hp, rfl⟩
  · rintro ⟨a, hp, rfl⟩
    exact ⟨a, w', hp, rfl, rfl⟩

/-- A program that may fail either fails in its first half or goes on. -/
theorem returns_bindE {p : ExceptT ε (Prog I) α} {f : α → ExceptT ε (Prog I) β} {r : Except ε β} :
    Returns exec (p >>= f).run w r w' ↔
      (∃ e, Returns exec p.run w (.error e) w' ∧ r = .error e) ∨
      ∃ a v, Returns exec p.run w (.ok a) v ∧ Returns exec (f a).run v r w' := by
  have h : (p >>= f).run = p.run >>= ExceptT.bindCont f := rfl
  rw [h, returns_bind]
  constructor
  · rintro ⟨x, v, hp, hf⟩
    cases x with
    | ok a => exact .inr ⟨a, v, hp, hf⟩
    | error e =>
      obtain ⟨rfl, rfl⟩ := returns_done.mp hf
      exact .inl ⟨e, hp, rfl⟩
  · rintro (⟨e, hp, rfl⟩ | ⟨a, v, hp, hf⟩)
    · exact ⟨.error e, w', hp, .done _ _⟩
    · exact ⟨.ok a, v, hp, hf⟩

theorem returns_bind_ok {p : ExceptT ε (Prog I) α} {f : α → ExceptT ε (Prog I) β} {b : β} :
    Returns exec (p >>= f).run w (.ok b) w' ↔
      ∃ a v, Returns exec p.run w (.ok a) v ∧ Returns exec (f a).run v (.ok b) w' := by
  rw [returns_bindE]
  simp

theorem returns_pure {a : α} {r : Except ε α} :
    Returns exec (pure a : ExceptT ε (Prog I) α).run w r w' ↔ r = .ok a ∧ w' = w := returns_done

theorem returns_ofExcept {x r : Except ε α} :
    Returns exec (ExceptT.mk (Prog.done x) : ExceptT ε (Prog I) α).run w r w' ↔ r = x ∧ w' = w :=
  returns_done

end Returns

/-- Where every call can be answered, every program comes to its end. -/
theorem exists_returns {exec : Semantics I W} (h : ∀ c w, ∃ a w', exec c w a w') (p : Prog I α)
    (w : W) : ∃ a w', Returns exec p w a w' := by
  induction p generalizing w with
  | done a => exact ⟨a, w, .done a w⟩
  | ask c k ih =>
    obtain ⟨a, w₁, hc⟩ := h c w
    obtain ⟨r, w₂, hk⟩ := ih a w₁
    exact ⟨r, w₂, .ask hc hk⟩

/-- A program run by itself in a world that has one answer to each call. -/
def Prog.interpret (answer : (c : I.Call) → W → I.Answer c × W) : Prog I α → W → α × W
  | .done a, w => (a, w)
  | .ask c k, w => (k (answer c w).1).interpret answer (answer c w).2

section Interpreting

variable {answer : (c : I.Call) → W → I.Answer c × W}

theorem interpret_bind (p : Prog I α) (f : α → Prog I β) (w : W) :
    (p >>= f).interpret answer w =
      (f (p.interpret answer w).1).interpret answer (p.interpret answer w).2 := by
  induction p generalizing w with
  | done a => rfl
  | ask c k ih => exact ih _ _

/-- Go on from a result that is not an error. -/
def proceed (f : α → W → Except ε β × W) : Except ε α × W → Except ε β × W
  | (.ok a, w) => f a w
  | (.error e, w) => (.error e, w)

theorem proceed_ok (f : α → W → Except ε β × W) (a : α) (w : W) :
    proceed f (.ok a, w) = f a w := rfl

theorem interpret_bindE (p : ExceptT ε (Prog I) α) (f : α → ExceptT ε (Prog I) β) (w : W) :
    (p >>= f).run.interpret answer w =
      proceed (fun a v => (f a).run.interpret answer v) (p.run.interpret answer w) := by
  have h : (p >>= f).run = p.run >>= ExceptT.bindCont f := rfl
  rw [h, interpret_bind]
  rcases p.run.interpret answer w with ⟨e | a, v⟩
  · rfl
  · rfl

/-- A run by itself is one of those that are possible. -/
theorem returns_interpret {V : Type} {exec : Semantics I V} (view : W → V)
    (h : ∀ c w, exec c (view w) (answer c w).1 (view (answer c w).2)) (p : Prog I α) (w : W) :
    Returns exec p (view w) (p.interpret answer w).1 (view (p.interpret answer w).2) := by
  induction p generalizing w with
  | done a => exact .done a (view w)
  | ask c k ih => exact .ask (h c w) (ih _ _)

/-- The client whose turn it is has its next call answered. One that is not there or has
ended is passed over. -/
def Config.turn (answer : (c : I.Call) → W → I.Answer c × W) (s : Config I W) (i : Nat) :
    Config I W :=
  match s.clients[i]? with
  | some (.ask c k) => ⟨(answer c s.world).2, s.clients.set i (k (answer c s.world).1)⟩
  | _ => s

theorem reachable_arrivals {exec : Semantics I W} {spawn : Prog I Unit → Prop}
    {env : W → W → Prop} {w w₀ : W} {cs ps : List (Prog I Unit)}
    (h : Reachable exec spawn env w₀ ⟨w, cs⟩) (hspawn : ∀ p ∈ ps, spawn p) :
    Reachable exec spawn env w₀ ⟨w, cs ++ ps⟩ := by
  induction ps generalizing cs with
  | nil => rwa [List.append_nil]
  | cons p ps ih =>
    rw [List.append_cons]
    exact ih (h.tail (.arrive (hspawn p List.mem_cons_self)))
      fun q hq => hspawn q (List.mem_cons_of_mem _ hq)

/-- Clients that are served in some order make a run that is possible. -/
theorem reachable_turns {exec : Semantics I W} {spawn : Prog I Unit → Prop} {env : W → W → Prop}
    (h : ∀ c w, exec c w (answer c w).1 (answer c w).2) {w : W} {s : Config I W}
    (hs : Reachable exec spawn env w s) (turns : List Nat) :
    Reachable exec spawn env w (turns.foldl (Config.turn answer) s) := by
  induction turns generalizing s with
  | nil => exact hs
  | cons i turns ih =>
    apply ih
    unfold Config.turn
    split
    · next c k hget => exact hs.tail (.advance hget (h c _))
    · exact hs

end Interpreting

def Outcome (Q : α → Prop) (E : ε → Prop) : Except ε α → Prop
  | .ok a => Q a
  | .error e => E e

theorem Outcome.bind {x : Except ε α} {f : α → Except ε β} {P : α → Prop} {Q : β → Prop}
    {E : ε → Prop} (hx : Outcome P E x) (hf : ∀ a, P a → Outcome Q E (f a)) :
    Outcome Q E (x >>= f) := by
  cases x with
  | ok a => exact hf a hx
  | error e => exact hx

/-- However its calls are answered, a program changes the world by `R` at most, and
`Q` holds of its result or `E` of its error. -/
def Meets (exec : Semantics I W) (R : W → W → Prop) (p : ExceptT ε (Prog I) α) (Q : α → Prop)
    (E : ε → Prop) : Prop :=
  ∀ w r w', Returns exec p.run w r w' → R w w' ∧ Outcome Q E r

section Meets

variable {exec : Semantics I W} {R : W → W → Prop} [IsPreorder W R] {E : ε → Prop}

theorem Meets.ofExcept {x : Except ε α} {Q : α → Prop} (h : Outcome Q E x) :
    Meets exec R (ExceptT.mk (Prog.done x)) Q E := by
  intro w r w' hr
  obtain ⟨rfl, rfl⟩ := returns_ofExcept.mp hr
  exact ⟨refl w', h⟩

theorem Meets.pure {a : α} {Q : α → Prop} (h : Q a) :
    Meets exec R (pure a : ExceptT ε (Prog I) α) Q E := Meets.ofExcept h

theorem Meets.throw {e : ε} {Q : α → Prop} (h : E e) :
    Meets exec R (throw e : ExceptT ε (Prog I) α) Q E := Meets.ofExcept h

theorem Meets.bind {p : ExceptT ε (Prog I) α} {f : α → ExceptT ε (Prog I) β} {P : α → Prop}
    {Q : β → Prop} (hp : Meets exec R p P E) (hf : ∀ a, P a → Meets exec R (f a) Q E) :
    Meets exec R (p >>= f) Q E := by
  intro w r w' hr
  obtain ⟨e, he, rfl⟩ | ⟨a, v, ha, hrest⟩ := returns_bindE.mp hr
  · exact hp w _ w' he
  · obtain ⟨hwv, hpa⟩ := hp w _ v ha
    obtain ⟨hvw, hq⟩ := hf a hpa v r w' hrest
    exact ⟨IsTrans.trans w v w' hwv hvw, hq⟩

omit [IsPreorder W R] in
theorem Meets.lift {p : Prog I α} (h : ∀ w a w', Returns exec p w a w' → R w w') :
    Meets exec R (ExceptT.lift p : ExceptT ε (Prog I) α) (fun _ => True) E := by
  intro w r w' hr
  obtain ⟨a, ha, rfl⟩ := returns_lift.mp hr
  exact ⟨h w a w' ha, trivial⟩

end Meets

end Choreographer.Lib.Programs
