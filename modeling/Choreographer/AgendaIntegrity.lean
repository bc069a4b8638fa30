import Choreographer.Operations
import Mathlib.Data.List.Induction

namespace Choreographer.AgendaIntegrity

open Choreographer.Lib.SortedMaps Choreographer.Lib.Updates
open Choreographer.Texts Choreographer.Values Choreographer.Steps Choreographer.DefinitionParts
open Choreographer.Definition Choreographer.Agenda Choreographer.Instance Choreographer.Operations

variable {d : CeremonyDefinition} {i i' : CeremonyInstance} {op : Operation}

/-- What a provenance was checked against when the item it comes with was asked for. -/
structure Sourced (i : CeremonyInstance) (requestedBy : RoleId) (target : CeremonyInterventionTarget)
    (provenance : CeremonyInterventionProvenance) : Prop where
  source : ∃ source ∈ i.interventions, source.id = provenance.sourceInterventionId ∧
    source.requestedBy = requestedBy ∧
    ∃ response ∈ source.responses, response.roleId = provenance.sourceResponseRoleId
  selected : target.accepts provenance.selectedRoleId = true

/-- What an accepted call does to the agenda. -/
inductive AgendaStep (d : CeremonyDefinition) (i : CeremonyInstance) :
    Operation → List CeremonyIntervention → Prop
  | unchanged {op : Operation} : AgendaStep d i op i.interventions
  | requested {interventionId : CeremonyInterventionId} {roleId : RoleId}
      {kind : CeremonyInterventionKind} {target : CeremonyInterventionTarget}
      {content : CeremonyInterventionContent} {provenance : Option CeremonyInterventionProvenance}
      {now : OffsetDateTime}
      (sourced : ∀ p, provenance = some p → Sourced i roleId target p)
      (fresh : ∀ item ∈ i.interventions, item.id ≠ interventionId) :
      AgendaStep d i
        (.requestIntervention interventionId roleId kind target content provenance now)
        (i.interventions ++ [CeremonyIntervention.openWithProvenance interventionId kind roleId
          target content provenance now])
  | answered {op : Operation} {before after : List CeremonyIntervention}
      {item : CeremonyIntervention} {response : CeremonyInterventionResponse}
      {now : OffsetDateTime} (hitem : i.interventions = before ++ item :: after)
      (allowed : d.roleAllows response.roleId .respondToIntervention = true)
      (can : item.CanRespond response.roleId) :
      AgendaStep d i op (before ++
        { item with responses := item.responses ++ [response], updatedAt := now } :: after)
  | closed {before after : List CeremonyIntervention} {item : CeremonyIntervention}
      {now : OffsetDateTime} (hitem : i.interventions = before ++ item :: after)
      (isOpen : item.status = .opened) :
      AgendaStep d i (.closeIntervention item.id item.requestedBy now) (before ++
        { item with status := .closed, updatedAt := now, closedAt := some now } :: after)

theorem sourced_of_ok {roleId : RoleId} {target : CeremonyInterventionTarget}
    {provenance : CeremonyInterventionProvenance}
    (h : i.requireInterventionProvenance d roleId target provenance = .ok ()) :
    Sourced i roleId target provenance := by
  simp only [CeremonyInstance.requireInterventionProvenance, except_bind_eq_ok, okOr_eq_ok,
    require_eq_ok, decide_eq_true_eq] at h
  obtain ⟨source, hsource, _, hrequester, _, hresponse, _, _, _, _, hselected⟩ := h
  obtain ⟨response, hmem, hrole⟩ := List.any_eq_true.mp hresponse
  refine ⟨⟨source, List.mem_of_find?_eq_some hsource, ?_, hrequester, response, hmem, ?_⟩,
    hselected⟩
  · simpa using List.find?_some hsource
  · simpa using hrole

theorem agendaStep_of_effect (h : Effect d i op i') : AgendaStep d i op i'.interventions := by
  cases h with
  | requestIntervention active allowed targeted sourced fresh =>
    exact .requested (fun p hp => sourced_of_ok (sourced p hp)) fresh
  | respond active allowed hitem hid first can => exact .answered hitem allowed can
  | respondWithEvidence active allowed hitem hid first can => exact .answered hitem allowed can
  | closeIntervention active allowed hitem hid first isOpen requester =>
    subst hid requester
    exact .closed hitem isOpen
  | _ => exact .unchanged

/-- What holds of an item by itself. -/
structure ItemSound (d : CeremonyDefinition) (item : CeremonyIntervention) : Prop where
  once : (item.responses.map CeremonyInterventionResponse.roleId).Nodup
  targeted : ∀ response ∈ item.responses, item.target.accepts response.roleId = true
  allowed : ∀ response ∈ item.responses,
    d.roleAllows response.roleId .respondToIntervention = true
  dated : item.closedAt.isSome = true ↔ item.status = .closed
  selected : ∀ p, item.provenance = some p → item.target.accepts p.selectedRoleId = true

theorem itemSound_opened {interventionId : CeremonyInterventionId} {roleId : RoleId}
    {kind : CeremonyInterventionKind} {target : CeremonyInterventionTarget}
    {content : CeremonyInterventionContent} {provenance : Option CeremonyInterventionProvenance}
    {now : OffsetDateTime} (h : ∀ p, provenance = some p → Sourced i roleId target p) :
    ItemSound d (CeremonyIntervention.openWithProvenance interventionId kind roleId target content
      provenance now) where
  once := List.nodup_nil
  targeted := by simp [CeremonyIntervention.openWithProvenance]
  allowed := by simp [CeremonyIntervention.openWithProvenance]
  dated := by simp [CeremonyIntervention.openWithProvenance]
  selected p hp := (h p hp).selected

theorem ItemSound.answered {item : CeremonyIntervention} {response : CeremonyInterventionResponse}
    {now : OffsetDateTime} (h : ItemSound d item)
    (allowed : d.roleAllows response.roleId .respondToIntervention = true)
    (can : item.CanRespond response.roleId) :
    ItemSound d { item with responses := item.responses ++ [response], updatedAt := now } where
  once := by
    rw [List.map_append, List.nodup_append]
    refine ⟨h.once, List.nodup_singleton _, ?_⟩
    intro a ha b hb
    obtain ⟨other, hother, rfl⟩ := List.mem_map.mp ha
    rw [List.mem_singleton.mp hb]
    exact can.first other hother
  targeted := by
    simp only [List.mem_append, List.mem_singleton]
    rintro other (hother | rfl)
    · exact h.targeted other hother
    · exact can.targeted
  allowed := by
    simp only [List.mem_append, List.mem_singleton]
    rintro other (hother | rfl)
    · exact h.allowed other hother
    · exact allowed
  dated := h.dated
  selected := h.selected

theorem ItemSound.closed {item : CeremonyIntervention} {now : OffsetDateTime}
    (h : ItemSound d item) :
    ItemSound d { item with status := .closed, updatedAt := now, closedAt := some now } where
  once := h.once
  targeted := h.targeted
  allowed := h.allowed
  dated := by simp
  selected := h.selected

section Steps

variable {items : List CeremonyIntervention}

theorem mem_replaced {before after : List CeremonyIntervention} {item item' x : CeremonyIntervention}
    (hitem : items = before ++ item :: after) (hx : x ∈ before ++ item' :: after) :
    x = item' ∨ x ∈ items := by
  subst hitem
  simp only [List.mem_append, List.mem_cons] at hx ⊢
  tauto

theorem sound_step (h : AgendaStep d i op items) (hi : ∀ item ∈ i.interventions, ItemSound d item) :
    ∀ item ∈ items, ItemSound d item := by
  cases h with
  | unchanged => exact hi
  | requested sourced fresh =>
    intro x hx
    rcases List.mem_append.mp hx with hx | hx
    · exact hi x hx
    · rw [List.mem_singleton.mp hx]
      exact itemSound_opened sourced
  | @answered _ before after item response now hitem allowed can =>
    intro x hx
    rcases mem_replaced hitem hx with rfl | hx
    · exact (hi item (by simp [hitem])).answered allowed can
    · exact hi x hx
  | @closed before after item now hitem isOpen =>
    intro x hx
    rcases mem_replaced hitem hx with rfl | hx
    · exact (hi item (by simp [hitem])).closed
    · exact hi x hx

theorem distinct_step (h : AgendaStep d i op items)
    (hi : (i.interventions.map CeremonyIntervention.id).Nodup) :
    (items.map CeremonyIntervention.id).Nodup := by
  cases h with
  | unchanged => exact hi
  | requested sourced fresh =>
    rw [List.map_append, List.nodup_append]
    refine ⟨hi, List.nodup_singleton _, ?_⟩
    intro a ha b hb
    obtain ⟨item, hitem, rfl⟩ := List.mem_map.mp ha
    rw [List.mem_singleton.mp hb]
    exact fresh item hitem
  | answered hitem => simpa [hitem] using hi
  | closed hitem => simpa [hitem] using hi

theorem closed_step (h : AgendaStep d i op items) {item : CeremonyIntervention}
    (hitem : item ∈ i.interventions) (hc : item.status = .closed) : item ∈ items := by
  cases h with
  | unchanged => exact hitem
  | requested => exact List.mem_append_left _ hitem
  | @answered _ before after other response now hother allowed can =>
    have hne : item ≠ other := by
      rintro rfl
      simp [can.isOpen] at hc
    rw [hother] at hitem
    simp only [List.mem_append, List.mem_cons, hne, false_or] at hitem ⊢
    tauto
  | @closed before after other now hother isOpen =>
    have hne : item ≠ other := by
      rintro rfl
      simp [isOpen] at hc
    rw [hother] at hitem
    simp only [List.mem_append, List.mem_cons, hne, false_or] at hitem ⊢
    tauto

end Steps

def request (item : CeremonyIntervention) : Operation :=
  .requestIntervention item.id item.requestedBy item.kind item.target item.request item.provenance
    item.createdAt

/-- Some call of these was accepted in the state that those before it had left, which was
such a state. -/
def Came (d : CeremonyDefinition) (start : CeremonyInstance) (ops : List Operation)
    (op : Operation) (P : CeremonyInstance → Prop) : Prop :=
  ∃ before later, ops = before ++ op :: later ∧ op.answer d (runAll d before start) = .ok () ∧
    P (runAll d before start)

section Runs

variable {start : CeremonyInstance} {ops : List Operation}

theorem Came.concat {P : CeremonyInstance → Prop} (h : Came d start ops op P) (last : Operation) :
    Came d start (ops ++ [last]) op P := by
  obtain ⟨before, later, rfl, haccepted, hstate⟩ := h
  exact ⟨before, later ++ [last], by simp, haccepted, hstate⟩

theorem came_last {P : CeremonyInstance → Prop} (haccepted : op.answer d (runAll d ops start) = .ok ())
    (hstate : P (runAll d ops start)) : Came d start (ops ++ [op]) op P :=
  ⟨ops, [], rfl, haccepted, hstate⟩

/-- How an item came about and was closed. Its source was on the agenda when it was asked
for, and it was not. -/
structure Accounted (d : CeremonyDefinition) (start : CeremonyInstance) (ops : List Operation)
    (item : CeremonyIntervention) : Prop where
  asked : Came d start ops (request item) fun past =>
    (∀ other ∈ past.interventions, other.id ≠ item.id) ∧
      ∀ p, item.provenance = some p → Sourced past item.requestedBy item.target p
  closed : item.status = .closed → ∃ now, item.closedAt = some now ∧
    Came d start ops (.closeIntervention item.id item.requestedBy now) fun _ => True

theorem Accounted.concat {item : CeremonyIntervention} (h : Accounted d start ops item)
    (last : Operation) : Accounted d start (ops ++ [last]) item where
  asked := h.asked.concat last
  closed hc := by
    obtain ⟨now, hnow, hcame⟩ := h.closed hc
    exact ⟨now, hnow, hcame.concat last⟩

theorem accounted_step {items : List CeremonyIntervention}
    (h : AgendaStep d (runAll d ops start) op items)
    (haccepted : op.answer d (runAll d ops start) = .ok ())
    (hi : ∀ item ∈ (runAll d ops start).interventions, Accounted d start ops item) :
    ∀ item ∈ items, Accounted d start (ops ++ [op]) item := by
  cases h with
  | unchanged => exact fun item hitem => (hi item hitem).concat op
  | requested sourced fresh =>
    intro x hx
    rcases List.mem_append.mp hx with hx | hx
    · exact (hi x hx).concat _
    · rw [List.mem_singleton.mp hx]
      refine ⟨came_last haccepted ⟨fresh, sourced⟩, ?_⟩
      simp [CeremonyIntervention.openWithProvenance]
  | @answered _ before after item response now hitem allowed can =>
    intro x hx
    rcases mem_replaced hitem hx with rfl | hx
    · have hold := hi item (by simp [hitem])
      exact ⟨hold.asked.concat op, (hold.concat op).closed⟩
    · exact (hi x hx).concat op
  | @closed before after item now hitem isOpen =>
    intro x hx
    rcases mem_replaced hitem hx with rfl | hx
    · have hold := hi item (by simp [hitem])
      exact ⟨hold.asked.concat _, fun _ => ⟨now, rfl, came_last haccepted trivial⟩⟩
    · exact (hi x hx).concat _

theorem accounted_run (hstart : start.interventions = []) (ops : List Operation) :
    ∀ item ∈ (runAll d ops start).interventions, Accounted d start ops item := by
  induction ops using List.reverseRecOn with
  | nil => simp [runAll, hstart]
  | append_singleton ops op ih =>
    rw [runAll_concat]
    rcases after_cases d op (runAll d ops start) with ⟨_, -, hsame⟩ | ⟨haccepted, heffect⟩
    · rw [hsame]
      exact fun item hitem => (ih item hitem).concat op
    · exact accounted_step (agendaStep_of_effect heffect) haccepted ih

theorem closed_run {item : CeremonyIntervention} (hitem : item ∈ i.interventions)
    (hc : item.status = .closed) (later : List Operation) :
    item ∈ (runAll d later i).interventions :=
  runAll_keeps (P := fun i => item ∈ i.interventions)
    (fun _ _ _ hmem heffect => closed_step (agendaStep_of_effect heffect) hmem hc) later hitem

end Runs

/-- The agenda of a session after some calls. -/
structure AgendaSound (d : CeremonyDefinition) (start : CeremonyInstance) (ops : List Operation) :
    Prop where
  distinct : ((runAll d ops start).interventions.map CeremonyIntervention.id).Nodup
  sound : ∀ item ∈ (runAll d ops start).interventions, ItemSound d item
  accounted : ∀ item ∈ (runAll d ops start).interventions, Accounted d start ops item
  settled : ∀ item ∈ (runAll d ops start).interventions, item.status = .closed →
    ∀ later, item ∈ (runAll d (ops ++ later) start).interventions

/-- Whatever is called, the agenda stays in order. -/
theorem agenda_integrity (d : CeremonyDefinition) (id : CeremonyId) (context : CeremonyContext)
    (now : OffsetDateTime) (bound : Option CeremonyDefinitionDigest) (ops : List Operation) :
    AgendaSound d (CeremonyInstance.opened id d context now bound) ops where
  distinct := by
    apply runAll_keeps (P := fun i => (i.interventions.map CeremonyIntervention.id).Nodup)
    · exact fun _ _ _ hi heffect => distinct_step (agendaStep_of_effect heffect) hi
    · exact List.nodup_nil
  sound := by
    apply runAll_keeps (P := fun i => ∀ item ∈ i.interventions, ItemSound d item)
    · exact fun _ _ _ hi heffect => sound_step (agendaStep_of_effect heffect) hi
    · simp [CeremonyInstance.opened]
  accounted := accounted_run rfl ops
  settled item hitem hc later := by
    rw [runAll_append]
    exact closed_run hitem hc later

end Choreographer.AgendaIntegrity
