import Choreographer.Audit

namespace Choreographer.TamperEvidence

open Choreographer.Lib.ByteStrings Choreographer.Lib.Updates Choreographer.Texts
open Choreographer.Values Choreographer.Audit

variable {env : Rendering}

theorem framed_writeField : Framed writeField := by
  refine framed_lengthPrefixed.comp
    (f := fun s : Str => ⟨utf8 s.asStr, by rw [length_utf8]; exact s.fits⟩) ?_
  intro s t h
  have h : s.asStr = t.asStr := utf8_injective (congrArg Subtype.val h)
  cases s
  cases t
  cases h
  rfl

theorem framed_writeHash : Framed writeHash := by
  refine framed_lengthPrefixed.comp
    (f := fun d : Digest => ⟨d.bytes, by rw [d.length_eq]; decide⟩) ?_
  intro d e h
  have h : d.bytes = e.bytes := congrArg Subtype.val h
  cases d
  cases e
  cases h
  rfl

theorem framed_eventType :
    Framed (fun t : AuditEventType => lengthPrefixed (utf8 t.asStr)) := by
  refine framed_lengthPrefixed.comp
    (f := fun t : AuditEventType => ⟨utf8 t.asStr, by rw [length_utf8]; cases t <;> decide⟩) ?_
  intro t u h
  exact eventType_asStr_injective (utf8_injective (congrArg Subtype.val h))

theorem framed_actorKind :
    Framed (fun k : AuditActorKind => lengthPrefixed (utf8 k.asStr)) := by
  refine framed_lengthPrefixed.comp
    (f := fun k : AuditActorKind => ⟨utf8 k.asStr, by rw [length_utf8]; cases k <;> decide⟩) ?_
  intro k l h
  exact actorKind_asStr_injective (utf8_injective (congrArg Subtype.val h))

/-- The canonical bytes determine everything but the digest: every field is
prefixed by its length or has a fixed one, so they come apart in one way only. -/
theorem canonical_injective {r s : AuditRecord} {t u : Str} (h : canonical r t = canonical s u)
    (hh : r.recordHash = s.recordHash) (ht : t = u → r.occurredAt = s.occurredAt) : r = s := by
  simp only [canonical, List.append_assoc] at h
  have h := List.append_cancel_left h
  obtain ⟨h1, h⟩ := framed_beBytes 4 r.schemaVersion s.schemaVersion _ _ h
  obtain ⟨h2, h⟩ := framed_writeField _ _ _ _ h
  obtain ⟨h3, h⟩ := framed_eventType _ _ _ _ h
  obtain ⟨h4, h⟩ := framed_writeField _ _ _ _ h
  obtain ⟨h5, h⟩ := framed_writeField _ _ _ _ h
  obtain ⟨h6, h⟩ := framed_writeField _ _ _ _ h
  obtain ⟨h7, h⟩ := framed_beBytes 8 r.sequence.value s.sequence.value _ _ h
  obtain ⟨h8, h⟩ := framed_writeField _ _ _ _ h
  obtain ⟨h9, h⟩ := framed_writeField _ _ _ _ h
  obtain ⟨h10, h⟩ := framed_actorKind _ _ _ _ h
  obtain ⟨h11, h⟩ := framed_tagged framed_writeField _ _ _ _ h
  obtain ⟨h12, h⟩ := framed_tagged framed_writeField _ _ _ _ h
  obtain ⟨h13, h⟩ := framed_tagged framed_writeField _ _ _ _ h
  obtain ⟨h14, h⟩ := framed_tagged framed_writeField _ _ _ _ h
  have h15 := (framed_tagged framed_writeHash).injective h
  have h16 := ht h8
  obtain ⟨r1, r2, r3, r4, r5, r6, ⟨r7⟩, r8, ⟨r9, r10, r11⟩, r12, r13, r14, r15, r16⟩ := r
  obtain ⟨s1, s2, s3, s4, s5, s6, ⟨s7⟩, s8, ⟨s9, s10, s11⟩, s12, s13, s14, s15, s16⟩ := s
  simp only at h1 h2 h3 h4 h5 h6 h7 h9 h10 h11 h12 h13 h14 h15 h16 hh
  subst h1 h2 h3 h4 h5 h6 h7 h9 h10 h11 h12 h13 h14 h15 h16 hh
  rfl

/-- What a hash function without collisions and a rendering that tells
timestamps apart come to, for the records at hand. -/
structure Faithful (env : Rendering) (records : List AuditRecord) : Prop where
  collisionFree : Set.InjOn env.sha256
    { bytes | ∃ r ∈ records, ∃ t, env.rfc3339 r.occurredAt = some t ∧ bytes = canonical r t }
  rendersApart : Set.InjOn env.rfc3339 { t | ∃ r ∈ records, t = r.occurredAt }

theorem Faithful.mono {records some' : List AuditRecord} (h : Faithful env records)
    (hs : ∀ r ∈ some', r ∈ records) : Faithful env some' := by
  refine ⟨h.collisionFree.mono ?_, h.rendersApart.mono ?_⟩
  · rintro bytes ⟨r, hr, hrest⟩
    exact ⟨r, hs r hr, hrest⟩
  · rintro t ⟨r, hr, rfl⟩
    exact ⟨r, hs r hr, rfl⟩

theorem eq_of_same_hash {records : List AuditRecord} (hf : Faithful env records)
    {r s : AuditRecord} (hr : r ∈ records) (hs : s ∈ records) (hor : Honest env r)
    (hos : Honest env s) (hh : r.recordHash = s.recordHash) : r = s := by
  obtain ⟨t, ht, hhr⟩ := hor
  obtain ⟨u, hu, hhs⟩ := hos
  have hbytes : canonical r t = canonical s u :=
    hf.collisionFree ⟨r, hr, t, ht, rfl⟩ ⟨s, hs, u, hu, rfl⟩ (by rw [hhr, hhs, hh])
  refine canonical_injective hbytes hh fun htu => ?_
  exact hf.rendersApart ⟨r, hr, rfl⟩ ⟨s, hs, rfl⟩ (by rw [ht, hu, htu])

/-- Two intact journals with the same head hash are the same journal, record for
record: the head fixes its own fields, the hash of its predecessor among them,
and a record without a predecessor can only be the first. -/
theorem head_hash_commits (env : Rendering) (a b : List AuditRecord) (hf : Faithful env (a ++ b))
    (ha : AuditChain.verify env a = .intact) (hb : AuditChain.verify env b = .intact)
    (hh : a.getLast?.map AuditRecord.recordHash = b.getLast?.map AuditRecord.recordHash) :
    a = b := by
  induction a using List.reverseRecOn generalizing b with
  | nil =>
    have : b.getLast? = none := by simpa using hh.symm
    exact (List.getLast?_eq_none_iff.mp this).symm
  | append_singleton l r ih =>
    cases b using List.reverseRecOn with
    | nil => simp at hh
    | append_singleton m s =>
      obtain ⟨hl, hjr⟩ := verify_concat.mp ha
      obtain ⟨hm, hjs⟩ := verify_concat.mp hb
      have hrs : r = s := eq_of_same_hash hf (by simp) (by simp) hjr.honest hjs.honest
        (by simpa using hh)
      have hlast : l.getLast?.map AuditRecord.recordHash = m.getLast?.map AuditRecord.recordHash :=
        by rw [← hjr.linked, ← hjs.linked, hrs]
      have hlm : l = m := by
        refine ih m (hf.mono fun x hx => ?_) hl hm hlast
        rcases List.mem_append.mp hx with hx | hx
        · simp [hx]
        · simp [hx]
      rw [hrs, hlm]

section Example

def openingHash : Digest :=
  ⟨[91, 133, 71, 148, 51, 13, 187, 226, 97, 107, 133, 120, 36, 131, 153, 144,
    131, 237, 34, 216, 58, 182, 206, 3, 226, 220, 187, 2, 98, 251, 50, 109], rfl⟩

def moveHash : Digest :=
  ⟨[135, 7, 61, 36, 194, 201, 117, 131, 230, 69, 46, 172, 97, 152, 12, 0,
    89, 113, 138, 227, 186, 89, 92, 55, 136, 67, 69, 217, 73, 121, 149, 248], rfl⟩

def opening : AuditRecord where
  eventId := ⟨"c1:ceremony_instance_started:session", by decide⟩
  eventType := .ceremonyInstanceStarted
  schemaVersion := auditRecordSchemaVersion
  ceremonyId := ⟨"c1", by decide⟩
  definitionName := ⟨"release", by decide⟩
  definitionVersion := ⟨"1", by decide⟩
  sequence := AuditSequence.first
  occurredAt := ⟨0, 0⟩
  actor := ⟨⟨"choreographer", by decide⟩, .engine, none⟩
  correlationId := none
  causationId := none
  traceId := none
  previousRecordHash := none
  recordHash := openingHash

def move : AuditRecord where
  eventId := ⟨"c1:transition_applied:transition:1", by decide⟩
  eventType := .transitionApplied
  schemaVersion := auditRecordSchemaVersion
  ceremonyId := ⟨"c1", by decide⟩
  definitionName := ⟨"release", by decide⟩
  definitionVersion := ⟨"1", by decide⟩
  sequence := ⟨2⟩
  occurredAt := ⟨1000000000, 0⟩
  actor := ⟨⟨"lead", by decide⟩, .human, some ⟨"lead", by decide⟩⟩
  correlationId := none
  causationId := none
  traceId := none
  previousRecordHash := some openingHash
  recordHash := moveHash

def epoch : Str := ⟨"1970-01-01T00:00:00Z", by decide⟩
def second : Str := ⟨"1970-01-01T00:00:01Z", by decide⟩

/-- The rendering and the SHA-256 digests of these two records. -/
def table : Rendering where
  sha256 bytes := if bytes = canonical opening epoch then openingHash else moveHash
  rfc3339 t := if t = ⟨0, 0⟩ then some epoch else if t = ⟨1000000000, 0⟩ then some second else none

theorem table_faithful : Faithful table ([opening, move] ++ [opening, move]) := by
  have hmem : ∀ r ∈ [opening, move] ++ [opening, move], r = opening ∨ r = move := by
    intro r hr
    simp only [List.cons_append, List.nil_append, List.mem_cons, List.not_mem_nil, or_false] at hr
    tauto
  have hapart : canonical move second ≠ canonical opening epoch := by decide
  have hhash : openingHash ≠ moveHash := by decide
  refine ⟨?_, ?_⟩
  · rintro x ⟨r, hr, t, ht, rfl⟩ y ⟨s, hs, u, hu, rfl⟩ h
    rcases hmem r hr with rfl | rfl <;> rcases hmem s hs with rfl | rfl <;> cases ht <;> cases hu
    · rfl
    · simp [table, hapart, hhash] at h
    · simp [table, hapart, hhash.symm] at h
    · rfl
  · rintro x ⟨r, hr, rfl⟩ y ⟨s, hs, rfl⟩ h
    rcases hmem r hr with rfl | rfl <;> rcases hmem s hs with rfl | rfl
    · rfl
    · exact absurd h (by decide)
    · exact absurd h (by decide)
    · rfl

theorem table_intact : AuditChain.verify table [opening, move] = .intact := by decide +kernel

theorem head_hash_commits_move :
    Faithful table ([opening, move] ++ [opening, move]) ∧
      AuditChain.verify table [opening, move] = .intact ∧ [opening, move] = [opening, move] :=
  ⟨table_faithful, table_intact,
    head_hash_commits table _ _ table_faithful table_intact table_intact rfl⟩

end Example

end Choreographer.TamperEvidence
