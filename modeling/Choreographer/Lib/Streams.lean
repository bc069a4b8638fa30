import Mathlib.Data.List.Forall2
import Choreographer.Lib.Programs

namespace Choreographer.Lib.Streams

open Choreographer.Lib.Programs

variable {I : Interface} {α β ι κ W ε : Type}

/-- The calls of an interface, and one more that puts an item on a channel. -/
def sending (ι : Type) (I : Interface) : Interface where
  Call := I.Call ⊕ ι
  Answer := Sum.elim I.Answer fun _ => Unit

/-- One end of a channel: what has arrived there, and whether anyone still reads. -/
structure Sink (ι : Type) where
  received : List ι
  isOpen : Bool

def Sink.fresh (ι : Type) : Sink ι := ⟨[], true⟩

/-- A reader may leave at any time, and never comes back. What is sent after that is
lost, and the sender does not learn of it. -/
def attached (exec : Semantics I W) : Semantics (sending ι I) (W × Sink ι)
  | .inl c, w, a, w' => exec c w.1 a w'.1 ∧ w'.2 = w.2
  | .inr item, w, _, w' => w'.1 = w.1 ∧
    (w.2.isOpen = true ∧ w'.2 = ⟨w.2.received ++ [item], true⟩ ∨ w'.2 = ⟨w.2.received, false⟩)

/-- A program that sends nothing. -/
def silent : Prog I α → Prog (sending ι I) α
  | .done a => .done a
  | .ask c k => .ask (.inl c) fun a => silent (k a)

def silentE (p : ExceptT ε (Prog I) α) : ExceptT ε (Prog (sending ι I)) α :=
  ExceptT.mk (silent p.run)

theorem silent_bind (p : Prog I α) (f : α → Prog I β) :
    silent (ι := ι) (p >>= f) = silent p >>= fun a => silent (f a) := by
  induction p with
  | done a => rfl
  | ask c k ih => exact congrArg (Prog.ask _) (funext ih)

theorem silentE_bind (p : ExceptT ε (Prog I) α) (f : α → ExceptT ε (Prog I) β) :
    silentE (ι := ι) (p >>= f) = silentE p >>= fun a => silentE (f a) := by
  refine (silent_bind p.run (ExceptT.bindCont f)).trans ?_
  refine congrArg (silent p.run >>= ·) (funext fun r => ?_)
  cases r with
  | error e => rfl
  | ok a => rfl

@[simp] theorem silentE_pure (a : α) :
    silentE (ι := ι) (pure a : ExceptT ε (Prog I) α) = pure a := rfl

def send (item : ι) : Prog (sending ι I) Unit := Prog.call (I := sending ι I) (.inr item)

def sendE (item : ι) : ExceptT ε (Prog (sending ι I)) Unit := ExceptT.lift (send item)

/-- The sink once these items were sent: it has them all, or those that were sent before
its reader left. -/
def Sink.After (s : Sink ι) (items : List ι) (s' : Sink ι) : Prop :=
  (s.isOpen = true ∧ s' = ⟨s.received ++ items, true⟩) ∨
    s'.isOpen = false ∧ ∃ got, got <+: items ∧ s'.received = s.received ++ got ∧
      (s.isOpen = false → got = [])

theorem Sink.After.refl (s : Sink ι) : s.After [] s := by
  obtain ⟨received, isOpen⟩ := s
  cases isOpen with
  | true => exact .inl ⟨rfl, by simp⟩
  | false => exact .inr ⟨rfl, [], List.nil_prefix, by simp, fun _ => rfl⟩

theorem Sink.After.append {s s₁ s₂ : Sink ι} {xs ys : List ι} (h : s.After xs s₁)
    (h' : s₁.After ys s₂) : s.After (xs ++ ys) s₂ := by
  obtain ⟨hopen, rfl⟩ | ⟨hclosed, got, hgot, hreceived, hnone⟩ := h
  · obtain ⟨-, rfl⟩ | ⟨hclosed, got, hgot, hreceived, -⟩ := h'
    · exact .inl ⟨hopen, by simp⟩
    · refine .inr ⟨hclosed, xs ++ got, ?_, by simpa using hreceived, ?_⟩
      · exact (List.prefix_append_right_inj xs).mpr hgot
      · intro hshut
        simp [hopen] at hshut
  · obtain ⟨hopen, -⟩ | ⟨hclosed', got', -, hreceived', hnone'⟩ := h'
    · simp [hclosed] at hopen
    · obtain rfl := hnone' hclosed
      refine .inr ⟨hclosed', got, hgot.trans (List.prefix_append xs ys), ?_, hnone⟩
      rw [hreceived', hreceived, List.append_nil]

section Runs

variable {exec : Semantics I W} {w w' : W × Sink ι}

theorem returns_silent {p : Prog I α} {a : α} :
    Returns (attached exec) (silent p) w a w' ↔ Returns exec p w.1 a w'.1 ∧ w'.2 = w.2 := by
  induction p generalizing w with
  | done b =>
    rw [silent, returns_done, returns_done]
    constructor
    · rintro ⟨rfl, rfl⟩
      exact ⟨⟨rfl, rfl⟩, rfl⟩
    · rintro ⟨⟨rfl, hw⟩, hs⟩
      exact ⟨rfl, Prod.ext hw hs⟩
  | ask c k ih =>
    constructor
    · intro h
      cases h with
      | ask hc hk =>
        obtain ⟨hk, hs⟩ := (ih _).mp hk
        exact ⟨.ask hc.1 hk, hs.trans hc.2⟩
    · rintro ⟨h, hs⟩
      cases h with
      | @ask _ _ _ v _ a _ hc hk =>
        have hc' : attached exec (ι := ι) (.inl c) w a (v, w.2) := ⟨hc, rfl⟩
        exact .ask hc' ((ih a).mpr ⟨hk, hs⟩)

theorem returns_send {item : ι} :
    Returns (attached exec) (send item : Prog (sending ι I) Unit) w () w' →
      w'.1 = w.1 ∧ w.2.After [item] w'.2 := by
  intro h
  obtain ⟨hw, ⟨hopen, hs⟩ | hs⟩ := returns_call.mp h
  · exact ⟨hw, .inl ⟨hopen, hs⟩⟩
  · exact ⟨hw, .inr ⟨by rw [hs], [], List.nil_prefix, by rw [hs, List.append_nil], fun _ => rfl⟩⟩

theorem sends (item : ι) (w : W) (received : List ι) :
    Returns (attached exec) (send item) (w, ⟨received, true⟩) () (w, ⟨received ++ [item], true⟩) :=
  returns_call.mpr ⟨rfl, .inl ⟨rfl, rfl⟩⟩

end Runs

section Announcing

variable (exec : Semantics I W) (shows : κ → ι → Prop)

/-- One item is sent, that shows this, and nothing else happens. -/
structure Announces (p : ExceptT ε (Prog (sending ι I)) Unit) (label : κ) : Prop where
  told : ∀ w r w', Returns (attached exec) p.run w r w' →
    r = .ok () ∧ w'.1 = w.1 ∧ ∃ item, shows label item ∧ w.2.After [item] w'.2
  tellable : ∀ w received, ∃ item,
    Returns (attached exec) p.run (w, ⟨received, true⟩) (.ok ()) (w, ⟨received ++ [item], true⟩)

variable {exec shows}

theorem Announces.send {item : ι} {label : κ} (h : shows label item) :
    Announces (ε := ε) exec shows (sendE item) label where
  told w r w' hr := by
    obtain ⟨_, hsend, rfl⟩ := returns_lift.mp hr
    obtain ⟨hw, hafter⟩ := returns_send hsend
    exact ⟨rfl, hw, item, h, hafter⟩
  tellable w received := ⟨item, returns_lift.mpr ⟨(), sends item w received, rfl⟩⟩

/-- A question that changes nothing, and whose answer only the item shows, is as if it
had not been asked. -/
theorem Announces.skip {p : Prog I α} (hp : ∀ w a w', Returns exec p w a w' → w' = w)
    (hanswered : ∀ w, ∃ a, Returns exec p w a w)
    {f : α → ExceptT ε (Prog (sending ι I)) Unit} {label : κ}
    (hf : ∀ a, Announces exec shows (f a) label) :
    Announces exec shows (silentE (ExceptT.lift p) >>= f) label where
  told w r w' hr := by
    obtain ⟨e, he, -⟩ | ⟨a, v, ha, hr⟩ := returns_bindE.mp hr
    · obtain ⟨_, _, he⟩ := returns_lift.mp (returns_silent.mp he).1
      simp at he
    · obtain ⟨hq, hs⟩ := returns_silent.mp ha
      obtain ⟨_, hq, -⟩ := returns_lift.mp hq
      have hv : v = w := Prod.ext (hp _ _ _ hq) hs
      exact (hf a).told w r w' (hv ▸ hr)
  tellable w received := by
    obtain ⟨a, ha⟩ := hanswered w
    obtain ⟨item, hr⟩ := (hf a).tellable w received
    refine ⟨item, returns_bindE.mpr (.inr ⟨a, (w, ⟨received, true⟩), ?_, hr⟩)⟩
    exact returns_silent.mpr ⟨returns_lift.mpr ⟨a, ha, rfl⟩, rfl⟩

end Announcing

section Tells

variable (exec : Semantics I W) (shows : κ → ι → Prop)

/-- The runs of the one program are those of the other, with items sent on the way. They
show what was to be shown, in its order: all of it if the run went well, and otherwise
what came before it failed, which is as far as such a run comes. -/
structure Tells (p : ExceptT ε (Prog (sending ι I)) α) (q : ExceptT ε (Prog I) α) (story : List κ)
    (Q : α → Prop) (Far : W → ε → W → List κ → Prop) : Prop where
  told : ∀ w r w', Returns (attached exec) p.run w r w' →
    Returns exec q.run w.1 r w'.1 ∧ ∃ shown items, List.Forall₂ shows shown items ∧
      w.2.After items w'.2 ∧ shown <+: story ∧ (∀ a, r = .ok a → Q a ∧ shown = story) ∧
      ∀ e, r = .error e → Far w.1 e w'.1 shown
  tellable : ∀ w r w' received, Returns exec q.run w r w' →
    ∃ items, Returns (attached exec) p.run (w, ⟨received, true⟩) r (w', ⟨received ++ items, true⟩)

/-- A stage of a run: it is told of when it has gone well. -/
def staged (q : ExceptT ε (Prog I) α) (announce : α → ExceptT ε (Prog (sending ι I)) Unit) :
    ExceptT ε (Prog (sending ι I)) α := do
  let a ← silentE q
  announce a
  pure a

variable {exec shows} {Far : W → ε → W → List κ → Prop} {q : ExceptT ε (Prog I) α}
variable {Q : α → Prop}

/-- A part of a run that sends nothing. -/
theorem Tells.silent (h : ∀ w a w', Returns exec q.run w (.ok a) w' → Q a)
    (hfar : ∀ w e w', Returns exec q.run w (.error e) w' → Far w e w' []) :
    Tells exec shows (silentE q) q [] Q Far where
  told w r w' hr := by
    obtain ⟨hq, hs⟩ := returns_silent.mp hr
    refine ⟨hq, [], [], .nil, hs ▸ Sink.After.refl _, List.nil_prefix, ?_, ?_⟩
    · rintro a rfl
      exact ⟨h _ _ _ hq, rfl⟩
    · rintro e rfl
      exact hfar _ _ _ hq
  tellable w r w' received hr := by
    refine ⟨[], returns_silent.mpr ⟨hr, ?_⟩⟩
    rw [List.append_nil]

theorem Tells.stage {announce : α → ExceptT ε (Prog (sending ι I)) Unit} {label : κ}
    (h : ∀ w a w', Returns exec q.run w (.ok a) w' → Q a)
    (hannounce : ∀ a, Q a → Announces exec shows (announce a) label)
    (hfar : ∀ w e w', Returns exec q.run w (.error e) w' → Far w e w' []) :
    Tells exec shows (staged q announce) q [label] Q Far where
  told w r w' hr := by
    obtain ⟨e, he, rfl⟩ | ⟨a, v, ha, hr⟩ := returns_bindE.mp hr
    · obtain ⟨hq, hs⟩ := returns_silent.mp he
      refine ⟨hq, [], [], .nil, hs ▸ Sink.After.refl _, List.nil_prefix, ?_, ?_⟩
      · intro a ha
        simp at ha
      · intro e' he'
        obtain rfl := Except.error.inj he'
        exact hfar _ _ _ hq
    · obtain ⟨hq, hs⟩ := returns_silent.mp ha
      have hQ : Q a := h _ _ _ hq
      obtain ⟨e, he, rfl⟩ | ⟨_, v', ha', hlast⟩ := returns_bindE.mp hr
      · simpa using ((hannounce a hQ).told _ _ _ he).1
      · obtain ⟨-, hv, item, hshows, hafter⟩ := (hannounce a hQ).told _ _ _ ha'
        obtain ⟨rfl, rfl⟩ := returns_pure.mp hlast
        rw [hs] at hafter
        refine ⟨hv ▸ hq, [label], [item], .cons hshows .nil, hafter, List.prefix_refl _, ?_, ?_⟩
        · intro b hb
          exact ⟨Except.ok.inj hb ▸ hQ, rfl⟩
        · intro e he
          simp at he
  tellable w r w' received hr := by
    cases r with
    | error e =>
      refine ⟨[], returns_bindE.mpr (.inl ⟨e, returns_silent.mpr ⟨hr, ?_⟩, rfl⟩)⟩
      rw [List.append_nil]
    | ok a =>
      obtain ⟨item, ha⟩ := (hannounce a (h _ _ _ hr)).tellable w' received
      refine ⟨[item], returns_bindE.mpr (.inr ⟨a, (w', ⟨received, true⟩), ?_, ?_⟩)⟩
      · exact returns_silent.mpr ⟨hr, rfl⟩
      · exact returns_bindE.mpr (.inr ⟨(), _, ha, returns_pure.mpr ⟨rfl, rfl⟩⟩)

theorem Tells.of_ok {p : ExceptT ε (Prog (sending ι I)) α} {story : List κ}
    (h : Tells exec shows p q story Q Far) {a : α} {w w' : W}
    (hr : Returns exec q.run w (.ok a) w') : Q a := by
  obtain ⟨items, hp⟩ := h.tellable w (.ok a) w' [] hr
  obtain ⟨-, _, _, -, -, -, hall, -⟩ := h.told _ _ _ hp
  exact (hall a rfl).1

/-- A run goes on with a part that shows nothing before it has gone well. Where that part
fails, the run came as far as to its beginning. -/
theorem Tells.bind {p : ExceptT ε (Prog (sending ι I)) α}
    {f : α → ExceptT ε (Prog (sending ι I)) β} {g : α → ExceptT ε (Prog I) β}
    {story rest : List κ} {P : β → Prop} (h : Tells exec shows p q story Q Far)
    (hf : ∀ a, Q a → Tells exec shows (f a) (g a) rest P fun _ _ _ shown => shown = [])
    (hfar : ∀ w a v e w', Returns exec q.run w (.ok a) v →
      Returns exec (g a).run v (.error e) w' → Far w e w' story) :
    Tells exec shows (p >>= f) (q >>= g) (story ++ rest) P Far where
  told w r w' hr := by
    obtain ⟨e, he, rfl⟩ | ⟨a, v, ha, hr⟩ := returns_bindE.mp hr
    · obtain ⟨hq, shown, items, hshows, hafter, hprefix, -, hwent⟩ := h.told _ _ _ he
      refine ⟨returns_bindE.mpr (.inl ⟨e, hq, rfl⟩), shown, items, hshows, hafter, ?_, ?_, ?_⟩
      · exact hprefix.trans (List.prefix_append story rest)
      · intro b hb
        simp at hb
      · intro e' he'
        obtain rfl := Except.error.inj he'
        exact hwent e rfl
    · obtain ⟨hq, shown, items, hshows, hafter, -, hall, -⟩ := h.told _ _ _ ha
      obtain ⟨hP, rfl⟩ := hall a rfl
      obtain ⟨hg, shown', items', hshows', hafter', hprefix', hall', hwent'⟩ :=
        (hf a hP).told _ _ _ hr
      refine ⟨returns_bindE.mpr (.inr ⟨a, v.1, hq, hg⟩), shown ++ shown', items ++ items', ?_, ?_⟩
      · exact List.rel_append hshows hshows'
      · refine ⟨hafter.append hafter', (List.prefix_append_right_inj shown).mpr hprefix', ?_, ?_⟩
        · intro b hb
          obtain ⟨hQ, rfl⟩ := hall' b hb
          exact ⟨hQ, rfl⟩
        · rintro e rfl
          rw [hwent' e rfl, List.append_nil]
          exact hfar _ _ _ _ _ hq hg
  tellable w r w' received hr := by
    obtain ⟨e, he, rfl⟩ | ⟨a, v, ha, hr⟩ := returns_bindE.mp hr
    · obtain ⟨items, he⟩ := h.tellable _ _ _ received he
      exact ⟨items, returns_bindE.mpr (.inl ⟨e, he, rfl⟩)⟩
    · obtain ⟨items, hp⟩ := h.tellable _ _ _ received ha
      obtain ⟨items', hr⟩ := (hf a (h.of_ok ha)).tellable _ _ _ (received ++ items) hr
      rw [List.append_assoc] at hr
      exact ⟨items ++ items', returns_bindE.mpr (.inr ⟨a, _, hp, hr⟩)⟩

end Tells

end Choreographer.Lib.Streams
