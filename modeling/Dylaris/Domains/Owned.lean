import Dylaris.Domains.Reconcile
import Dylaris.Library.Fields

/-!
# The reconciler touches only what it owns

Two results about every run of passes, edits by hand and removals.

* Every record that a pass asks a provider to replace or delete is named by a row of the ledger as it
  was when the zone was read.  A write replaces all records under a key, and it is planned only where
  every one of them is named (`domainPlan_plans`); a delete goes by values that a row names
  (`zonePlan_toDelete`).
* Every row of the ledger names a record that Core wrote.  A row is added for a record that was
  written, or for one that is found at the provider, and what is found there was written in this pass
  or is named by an older row (`written_of_foundClean`).

What the store does to the ledger is said once, in `Settles`: the rows that may be new, and the rows
that are certainly still there.  A row that belongs to another zone is never among those a zone adds
or drops, so the rows listed at the start of a pass are still in the ledger when their zone is read.
-/

set_option autoImplicit false

open Text Machine

namespace Dylaris.Domains

open List Option Bool World

variable {x : Texts} {site : Ref → Nat}

/-! ## Names in their normal form -/

theorem trimDot_of_getLast {t : Text} (h : t.getLast? ≠ some 0x2E) : trimDot t = t := if_neg h

theorem trimmed_of_plain {t : Text} (h : t.all isPlain = true) : Trimmed t :=
  trimmed_of_bytes (by decide) (all_eq_true.mp h)

theorem Label.facts (l : Label) :
    l.text.all isPlain = true ∧ l.text ≠ [] ∧ (0x2E : UInt8) ∉ l.text ∧
      (0x40 : UInt8) ∉ l.text := by
  have h := l.valid
  simp only [isLabel, and_eq_true, decide_eq_true_eq, List.all_eq_true] at h
  obtain ⟨⟨⟨⟨hne, -⟩, -⟩, -⟩, hall⟩ := h
  refine ⟨List.all_eq_true.mpr fun b hb ↦ ?_, hne, fun hdot ↦ ?_, fun hat ↦ ?_⟩
  · have := hall b hb
    simp only [isPlain, or_eq_true] at this ⊢
    tauto
  · exact absurd (hall _ hdot) (by decide)
  · exact absurd (hall _ hat) (by decide)

theorem srvRecordPrefix_plain : srvRecordPrefix.all isPlain = true := by decide +kernel

theorem Label.getLast_ne (l : Label) (pre : Text) : (pre ++ l.text).getLast? ≠ some 0x2E := by
  intro h
  obtain ⟨-, hne, hdot, -⟩ := l.facts
  rw [getLast?_append_of_ne_nil _ hne] at h
  exact hdot (mem_of_getLast? h)

/-- The name of a record Core writes is in its normal form. -/
theorem keyOf_plain {name : Text} {type : RecordType} (hplain : name.all isPlain = true)
    (hlast : name.getLast? ≠ some 0x2E) : keyOf x name type = ⟨name, type⟩ := by
  have hat : name ≠ lit "@" := by
    intro h
    rw [h] at hplain
    exact absurd hplain (by decide +kernel)
  rw [keyOf, trimDot_of_getLast hlast, x.lower_plain name hplain]
  exact congrArg (RecKey.mk · type) (if_neg hat)

theorem normValue_v4 (bits : BitVec 32) : normValue x .a (x.str (.v4 bits)) = x.str (.v4 bits) := by
  simp [normValue, x.trim_str, x.parse_str, Addr.unmap]

theorem normValue_plain {v : Text} (hplain : v.all isPlain = true)
    (hlast : v.getLast? ≠ some 0x2E) : normValue x .srv v = v := by
  simp [normValue, trimSpace_of_trimmed (trimmed_of_plain hplain), trimDot_of_getLast hlast,
    x.lower_plain v hplain]

/-! ## What Core writes -/

/-- A record Core wants in a zone. -/
def Expected (x : Texts) (zone : ZoneName) (e : Record) : Prop :=
  ∃ label ip port, e ∈ expectedRecords x label zone ip port

variable {e : Record}

/-- A wanted record is an A record under a label, or an SRV record under a label with the prefix. -/
theorem expected_cases {zone : ZoneName} (h : Expected x zone e) :
    (∃ (label : Label) (ip : BitVec 32), e = ⟨label.text, .a, x.str (.v4 ip), 0⟩) ∨
    (∃ (label : Label) (port : UInt16),
      e = ⟨srvRecordPrefix ++ label.text, .srv, label.text ++ lit "." ++ zone.text, port⟩) := by
  obtain ⟨label, ip, port, h⟩ := h
  rcases mem_cons.mp h with rfl | h
  · exact .inl ⟨label, ip, rfl⟩
  · split at h
    · exact .inr ⟨label, port, mem_singleton.mp h⟩
    · cases h

theorem toProvider_srv (label value : Text) (port : UInt16) :
    toProvider ⟨srvRecordPrefix ++ label, .srv, value, port⟩ = ⟨label, .srv, value, port⟩ := by
  have hpre : srvRecordPrefix.isPrefixOf (srvRecordPrefix ++ label) = true :=
    isPrefixOf_iff_prefix.mpr (prefix_append _ _)
  simp [toProvider, hpre]

/-- What is sent for a wanted record comes back under the record's own key. -/
theorem providerKey_toProvider {zone : ZoneName} (h : Expected x zone e) :
    providerKey x (toProvider e) = keyOf x e.name e.type := by
  rcases expected_cases h with ⟨label, ip, rfl⟩ | ⟨label, port, rfl⟩
  · simp [toProvider, providerKey]
  · rw [toProvider_srv]
    simp [providerKey]

theorem toProvider_type (e : Record) : (toProvider e).type = e.type := by
  unfold toProvider
  split <;> rfl

theorem toProvider_value (e : Record) : (toProvider e).value = e.value := by
  unfold toProvider
  split <;> rfl

theorem toProvider_port (e : Record) : (toProvider e).port = e.port := by
  unfold toProvider
  split <;> rfl

/-- The key and the value of what Core writes are in their normal form. -/
structure Clean (x : Texts) (rec : Record) : Prop where
  key : keyOf x (providerKey x rec).name (providerKey x rec).type = providerKey x rec
  value : normValue x rec.type (normValue x rec.type rec.value) = normValue x rec.type rec.value

theorem clean_toProvider {zone : ZoneName} (h : Expected x zone e) :
    Clean x (toProvider e) := by
  have hkey := providerKey_toProvider h
  rcases expected_cases h with ⟨label, ip, rfl⟩ | ⟨label, port, rfl⟩
  · obtain ⟨hplain, -, -, -⟩ := label.facts
    have hname : keyOf x label.text .a = ⟨label.text, .a⟩ := keyOf_plain hplain (label.getLast_ne [])
    constructor
    · rw [hkey, hname, hname]
    · rw [toProvider_type, toProvider_value, normValue_v4, normValue_v4]
  · obtain ⟨hplain, -, -, -⟩ := label.facts
    have hname : keyOf x (srvRecordPrefix ++ label.text) .srv = ⟨srvRecordPrefix ++ label.text, .srv⟩ :=
      keyOf_plain (by rw [all_append, srvRecordPrefix_plain, hplain, Bool.and_self])
        (label.getLast_ne _)
    constructor
    · rw [hkey, hname, hname]
    · rw [toProvider_type, toProvider_value]
      have hvalue : normValue x .srv (label.text ++ lit "." ++ zone.text)
          = label.text ++ lit "." ++ zone.text := by
        refine normValue_plain ?_ ?_
        · rw [all_append, all_append, hplain, zone.plain]
          decide +kernel
        · rw [getLast?_append_of_ne_nil _ zone.nonempty]
          exact zone.noDot
      rw [hvalue, hvalue]

/-! ## Planned writes and deletes -/

section Planning

variable {existing : List Record} {owned : List Row} {ref : Ref} {targets : Nat → Target}

/-- Some row names the record. -/
def Named (x : Texts) (rows : List Row) (rec : Record) : Prop :=
  ∃ o ∈ rows, ownsRecord x o.toEntry rec = true

theorem providerKey_type (rec : Record) : (providerKey x rec).type = rec.type := by
  unfold providerKey
  split
  · rename_i h
    exact h.symm
  · rfl

variable {rec : Record} {d : Domain} {p : RecordPlan}

/-- Under a key that holds no foreign record, every record is named. -/
theorem named_of_not_foreign {k : RecKey} (h : foreign x existing owned k = false)
    (hrec : rec ∈ recordsAt x existing k) :
    ∃ o ∈ rowsAt x owned k, ownsRecord x o.toEntry rec = true := by
  unfold foreign at h
  rw [List.any_eq_false] at h
  have hown := h rec hrec
  rw [not_eq_true, not_eq_false'] at hown
  exact List.any_eq_true.mp hown

/-- A record is planned only where no record is foreign. -/
structure Planned (x : Texts) (existing : List Record) (owned : List Row) (ref : Ref)
    (p : RecordPlan) : Prop where
  expected : Expected x ref.zone p.want
  key : p.k = keyOf x p.want.name p.want.type
  row : ∃ d, p.row = ledgerRow x ref p.want d
  free : foreign x existing owned p.k = false

theorem domainPlan_plans (hp : p ∈ (domainPlan x existing owned ref targets d).plans) :
    Planned x existing owned ref p := by
  revert hp
  fun_cases domainPlan x existing owned ref targets d <;> intro hp
  · cases hp
  · cases hp
  · cases hp
  next ip _ _ _ hnone =>
    obtain ⟨e, he, rfl⟩ := mem_map.mp hp
    refine ⟨⟨d.label, ip, _, he⟩, rfl, ⟨d.id, rfl⟩, ?_⟩
    have hconf := findSome?_eq_none_iff.mp hnone e he
    simp only [conflictAt] at hconf
    split at hconf
    · cases hconf
    split at hconf
    · split at hconf
      · cases hconf
      · cases hconf
    · rename_i hfree
      exact eq_false_iff.mpr hfree

theorem named_of_mem_ownedAt {recs : List Record} {o : Row} (ho : o ∈ owned)
    (h : rec ∈ ownedAt x recs o) : Named x owned rec :=
  ⟨o, ho, (mem_filter.mp h).2⟩

theorem domainPlan_toDelete
    (h : rec ∈ (domainPlan x existing owned ref targets d).toDelete) : Named x owned rec := by
  unfold domainPlan at h
  simp only at h
  split at h
  · cases h
  split at h
  · cases h
  · split at h
    · cases h
    · obtain ⟨o, ho, h⟩ := mem_flatMap.mp h
      exact named_of_mem_ownedAt (mem_of_mem_filter ho) h

theorem domainPlan_dropAfter {id : Nat}
    (h : id ∈ (domainPlan x existing owned ref targets d).dropAfter) : ∃ o ∈ owned, o.id = id := by
  unfold domainPlan at h
  simp only at h
  split at h
  · cases h
  split at h
  · cases h
  · split at h
    · cases h
    · obtain ⟨o, ho, rfl⟩ := mem_map.mp h
      exact ⟨o, mem_of_mem_filter ho, rfl⟩

variable {domains : List Domain}

theorem zonePlan_plans (hp : p ∈ (zonePlan x existing owned ref domains targets).plans) :
    Planned x existing owned ref p := by
  obtain ⟨dp, hdp, hp⟩ := mem_flatMap.mp hp
  obtain ⟨d, -, rfl⟩ := mem_map.mp hdp
  exact domainPlan_plans hp

theorem zonePlan_setPlans : p ∈ (zonePlan x existing owned ref domains targets).setPlans ↔
      p ∈ (zonePlan x existing owned ref domains targets).plans ∧
        sameRecord x (recordsAt x existing p.k) p.want = false := by
  simp [zonePlan]

theorem zonePlan_toDelete
    (h : rec ∈ (zonePlan x existing owned ref domains targets).toDelete) : Named x owned rec := by
  rcases mem_append.mp h with h | h
  · obtain ⟨dp, hdp, h⟩ := mem_flatMap.mp h
    obtain ⟨d, -, rfl⟩ := mem_map.mp hdp
    exact domainPlan_toDelete h
  · obtain ⟨o, ho, h⟩ := mem_flatMap.mp h
    exact named_of_mem_ownedAt (mem_of_mem_filter ho) h

theorem zonePlan_dropAfter {id : Nat}
    (h : id ∈ (zonePlan x existing owned ref domains targets).dropAfter) :
    ∃ o ∈ owned, o.id = id := by
  rcases mem_append.mp h with h | h
  · obtain ⟨dp, hdp, h⟩ := mem_flatMap.mp h
    obtain ⟨d, -, rfl⟩ := mem_map.mp hdp
    exact domainPlan_dropAfter h
  · obtain ⟨o, ho, rfl⟩ := mem_map.mp h
    exact ⟨o, mem_of_mem_filter ho, rfl⟩

/-- A record that a planned write replaces is named. -/
theorem named_of_replaced {plans : List RecordPlan}
    (hplans : ∀ p ∈ plans, Planned x existing owned ref p) (hrec : rec ∈ existing)
    (h : replacedBy x (plans.map fun p ↦ toProvider p.want) rec = true) : Named x owned rec := by
  obtain ⟨s, hs, hkey⟩ := any_eq_true.mp h
  obtain ⟨p, hp, rfl⟩ := mem_map.mp hs
  have hpl := hplans p hp
  rw [decide_eq_true_eq, providerKey_toProvider hpl.expected, ← hpl.key] at hkey
  obtain ⟨o, ho, hown⟩ := named_of_not_foreign hpl.free
    (mem_filter.mpr ⟨hrec, decide_eq_true hkey.symm⟩)
  exact ⟨o, mem_of_mem_filter ho, hown⟩

/-- A record that goes by a named value is named. -/
theorem named_of_removed {recs : List Record} (hrecs : ∀ d ∈ recs, Named x owned d)
    (h : removedBy x recs rec = true) : Named x owned rec := by
  obtain ⟨d, hd, hmatch⟩ := any_eq_true.mp h
  rw [and_eq_true, decide_eq_true_eq] at hmatch
  obtain ⟨hkey, hsame⟩ := hmatch
  obtain ⟨o, ho, hown⟩ := hrecs d hd
  have htype : d.type = rec.type := by
    rw [← providerKey_type (x := x) d, hkey, providerKey_type]
  refine ⟨o, ho, ?_⟩
  simp only [ownsRecord, sameValue, and_eq_true, or_eq_true, decide_eq_true_eq] at hown hsame ⊢
  rw [htype, hkey] at hown
  refine ⟨hown.1, hown.2.1.trans hsame.1, ?_⟩
  rcases hown.2.2 with hne | hport
  · exact .inl hne
  · exact hsame.2.imp id fun hport' ↦ hport.trans hport'

end Planning

/-! ## What a zone does to the world -/

/-- What may be done: the rows that may be added, the ids of the rows that may be dropped, the records
that may be touched and those that may be written. -/
structure Scope where
  adds : Entry → Prop
  drops : Nat → Prop
  touches : Touch → Prop
  writes : Ref × Record → Prop

/-- Between two worlds nothing was done outside a scope. -/
structure Settles (sc : Scope) (w w' : World) : Prop where
  nextID : w.nextID ≤ w'.nextID
  touched : ∀ t ∈ w'.touched, t ∈ w.touched ∨ sc.touches t
  wrote : ∀ e ∈ w'.wrote, e ∈ w.wrote ∨ sc.writes e
  wroteKept : ∀ e ∈ w.wrote, e ∈ w'.wrote
  rows : ∀ o ∈ w'.ledger, (∃ o₀ ∈ w.ledger, o₀.id = o.id ∧ o₀.toEntry = o.toEntry) ∨
    (w.nextID ≤ o.id ∧ o.id < w'.nextID ∧ sc.adds o.toEntry)
  kept : ∀ o ∈ w.ledger, ¬ sc.adds o.toEntry → ¬ sc.drops o.id → o ∈ w'.ledger

namespace Settles

variable {sc : Scope} {w w' w'' : World}

/-- Only the parts that no result is about have changed. -/
theorem of_eq (hid : w'.nextID = w.nextID) (htouched : w'.touched = w.touched)
    (hwrote : w'.wrote = w.wrote) (hledger : w'.ledger = w.ledger) : Settles sc w w' where
  nextID := hid.ge
  touched _ ht := .inl (htouched ▸ ht)
  wrote _ he := .inl (hwrote ▸ he)
  wroteKept _ he := hwrote ▸ he
  rows o ho := .inl ⟨o, hledger ▸ ho, rfl, rfl⟩
  kept _ ho _ _ := hledger ▸ ho

theorem refl (w : World) : Settles sc w w := of_eq rfl rfl rfl rfl

theorem trans (h : Settles sc w w') (h' : Settles sc w' w'') : Settles sc w w'' where
  nextID := h.nextID.trans h'.nextID
  touched t ht := (h'.touched t ht).elim (h.touched t) .inr
  wrote e he := (h'.wrote e he).elim (h.wrote e) .inr
  wroteKept e he := h'.wroteKept e (h.wroteKept e he)
  rows o ho := by
    rcases h'.rows o ho with ⟨o₁, ho₁, hid, hentry⟩ | ⟨hle, hlt, hadd⟩
    · rcases h.rows o₁ ho₁ with ⟨o₀, ho₀, hid₀, hentry₀⟩ | ⟨hle, hlt, hadd⟩
      · exact .inl ⟨o₀, ho₀, hid₀.trans hid, hentry₀.trans hentry⟩
      · exact .inr ⟨hid ▸ hle, lt_of_lt_of_le (hid ▸ hlt) h'.nextID, hentry ▸ hadd⟩
    · exact .inr ⟨h.nextID.trans hle, hlt, hadd⟩
  kept o ho hadd hdrop := h'.kept o (h.kept o ho hadd hdrop) hadd hdrop

/-- A loop stays in a scope if its body does. -/
theorem foldl {α : Type} {f : World → α → World} {l : List α}
    (h : ∀ w, ∀ a ∈ l, Settles sc w (f w a)) (w : World) : Settles sc w (l.foldl f w) := by
  induction l generalizing w with
  | nil => exact refl w
  | cons a l ih =>
    exact (h w a mem_cons_self).trans (ih (fun w b hb ↦ h w b (mem_cons_of_mem _ hb)) _)

theorem fail (w : World) (ref : Ref) (now : Nat) : Settles sc w (w.fail ref now) :=
  of_eq rfl rfl rfl rfl

end Settles

theorem mem_insertRow {row o : Row} {n : Nat} {ledger : List Row} (h : o ∈ insertRow row n ledger) :
    (∃ o₀ ∈ ledger, o₀.id = o.id ∧ o₀.toEntry = o.toEntry) ∨
      (o.id = n ∧ o.toEntry = row.toEntry) := by
  unfold insertRow at h
  split at h
  · obtain ⟨o₀, ho₀, heq⟩ := mem_map.mp h
    split at heq
    · exact .inl ⟨o₀, ho₀, by rw [← heq], by rw [← heq]⟩
    · exact .inl ⟨o₀, ho₀, by rw [heq], by rw [heq]⟩
  · rcases mem_append.mp h with h | h
    · exact .inl ⟨o, h, rfl, rfl⟩
    · rw [mem_singleton.mp h]
      exact .inr ⟨rfl, rfl⟩

theorem mem_insertRow_of_ne {row o : Row} {n : Nat} {ledger : List Row} (h : o ∈ ledger)
    (hne : o.toEntry ≠ row.toEntry) : o ∈ insertRow row n ledger := by
  unfold insertRow
  split
  · exact mem_map.mpr ⟨o, h, if_neg hne⟩
  · exact mem_append_left _ h

section Store

variable {sc : Scope} (replies : Replies)

theorem settles_addOwned (w : World) {row : Row} (hrow : sc.adds row.toEntry) :
    Settles sc w (w.addOwned replies row).1 where
  nextID := Nat.le_succ _
  touched _ ht := .inl ht
  wrote _ he := .inl he
  wroteKept _ he := he
  rows o ho := by
    simp only [addOwned] at ho
    split at ho
    · rcases mem_insertRow ho with hold | ⟨hid, hentry⟩
      · exact .inl hold
      · exact .inr ⟨hid.ge, by rw [hid]; exact Nat.lt_succ_self _, hentry ▸ hrow⟩
    · exact .inl ⟨o, ho, rfl, rfl⟩
  kept o ho hadd _ := by
    simp only [addOwned]
    split
    · exact mem_insertRow_of_ne ho fun heq ↦ hadd (heq ▸ hrow)
    · exact ho

theorem settles_dropRow (w : World) {id : Nat} (hid : sc.drops id) :
    Settles sc w (w.dropRow replies id) where
  nextID := le_refl _
  touched _ ht := .inl ht
  wrote _ he := .inl he
  wroteKept _ he := he
  rows o ho := by
    refine .inl ⟨o, ?_, rfl, rfl⟩
    simp only [dropRow] at ho
    split at ho
    · exact mem_of_mem_filter ho
    · exact ho
  kept o ho _ hdrop := by
    simp only [dropRow]
    split
    · exact mem_filter.mpr ⟨ho, decide_eq_true fun heq ↦ hdrop (heq ▸ hid)⟩
    · exact ho

theorem settles_dropRows (w : World) {ids : List Nat} (hids : ∀ id ∈ ids, sc.drops id) :
    Settles sc w (w.dropRows replies ids) :=
  Settles.foldl (fun w id hid ↦ settles_dropRow replies w (hids id hid)) w

theorem settles_settleKey (w : World) {row : Row} {rows : List Row} (hrow : sc.adds row.toEntry)
    (hrows : ∀ o ∈ rows, sc.drops o.id) : Settles sc w (w.settleKey replies row rows) := by
  have hstale : ∀ id ∈ (rows.filter fun o ↦ ¬ (o.value = row.value ∧ o.port = row.port)).map Row.id,
      sc.drops id := by
    intro id hid
    obtain ⟨o, ho, rfl⟩ := mem_map.mp hid
    exact hrows o (mem_of_mem_filter ho)
  have hadd := settles_addOwned replies w hrow
  unfold settleKey
  simp only
  split
  · exact settles_dropRows replies w hstale
  split
  · rename_i w' heq
    rw [heq] at hadd
    exact hadd
  · rename_i w' heq
    rw [heq] at hadd
    exact hadd.trans (settles_dropRows replies w' hstale)

end Store

/-! ## Rows name what Core wrote -/

/-- The entry is the one for the record. -/
structure Describes (x : Texts) (e : Entry) (rec : Record) : Prop where
  key : (⟨e.name, e.type⟩ : RecKey) = providerKey x rec
  value : e.value = normValue x rec.type rec.value
  port : rec.type = .srv → e.port = rec.port

/-- Core wrote the record that the entry is for. -/
def Written (x : Texts) (wrote : List (Ref × Record)) (e : Entry) : Prop :=
  ∃ rec, (e.ref, rec) ∈ wrote ∧ Describes x e rec

variable {e : Entry} {wrote : List (Ref × Record)}

theorem Written.mono {wrote' : List (Ref × Record)} (h : Written x wrote e)
    (hsub : ∀ r ∈ wrote, r ∈ wrote') : Written x wrote' e := by
  obtain ⟨rec, hrec, hdesc⟩ := h
  exact ⟨rec, hsub _ hrec, hdesc⟩

variable {rec : Record}

/-- The row of a planned record describes every record with the same value under its key. -/
theorem Planned.describes {existing : List Record} {owned : List Row} {ref : Ref} {p : RecordPlan}
    (hp : Planned x existing owned ref p) (hkey : providerKey x rec = p.k)
    (hsame : sameValue x p.want.type rec.value rec.port p.want.value p.want.port = true) :
    Describes x p.row.toEntry rec := by
  obtain ⟨d, hrow⟩ := hp.row
  have htype : rec.type = p.want.type := by
    rw [← providerKey_type (x := x) rec, hkey, hp.key]
    rfl
  simp only [sameValue, and_eq_true, or_eq_true, decide_eq_true_eq] at hsame
  rw [hrow]
  refine ⟨?_, ?_, fun hsrv ↦ ?_⟩
  · rw [hkey, hp.key]
    rfl
  · rw [htype]
    exact hsame.1.symm
  · rw [htype] at hsrv
    exact (if_pos hsrv).trans (hsame.2.resolve_left fun hne ↦ hne hsrv).symm

/-- What describes a record that a written row names was written itself. -/
theorem Written.of_owns (hclean : ∀ r ∈ wrote, Clean x r.2)
    {o : Entry} (ho : Written x wrote o) (hown : ownsRecord x o rec = true)
    (he : Describes x e rec) (href : e.ref = o.ref) : Written x wrote e := by
  obtain ⟨rec₀, hrec₀, hdesc⟩ := ho
  have hc := hclean _ hrec₀
  simp only [ownsRecord, sameValue, and_eq_true, or_eq_true, decide_eq_true_eq] at hown
  obtain ⟨hkey, hvalue, hport⟩ := hown
  have hkey₀ : providerKey x rec = providerKey x rec₀ := by
    rw [← hkey, ← hc.key, ← hdesc.key]
  have htype : rec.type = rec₀.type := by
    rw [← providerKey_type (x := x) rec, hkey₀, providerKey_type]
  refine ⟨rec₀, href ▸ hrec₀, he.key.trans hkey₀, ?_, fun hsrv ↦ ?_⟩
  · rw [he.value, ← hvalue, hdesc.value, htype, hc.value]
  · rw [← htype] at hsrv
    rw [he.port hsrv, ← hport.resolve_left fun hne ↦ hne hsrv, hdesc.port (htype ▸ hsrv)]

/-- A row that is written names a record that Core wrote. -/
theorem Written.owns (hclean : ∀ r ∈ wrote, Clean x r.2)
    (h : Written x wrote e) : ∃ rec, (e.ref, rec) ∈ wrote ∧ ownsRecord x e rec = true := by
  obtain ⟨rec, hrec, hdesc⟩ := h
  have hc := hclean _ hrec
  refine ⟨rec, hrec, ?_⟩
  simp only [ownsRecord, sameValue, and_eq_true, or_eq_true, decide_eq_true_eq]
  refine ⟨?_, ?_, ?_⟩
  · rw [← hc.key, ← hdesc.key]
  · rw [hdesc.value, hc.value]
  · by_cases hsrv : rec.type = .srv
    · exact .inr (hdesc.port hsrv)
    · exact .inl hsrv

/-! ## One zone -/

section Zone

variable {ref : Ref} {owned : List Row} {domains : List Domain} {targets : Nat → Target} {now : Nat}
  {replies : Replies}

/-- What a pass may do in a zone, where `owned` are the rows of the zone that it goes by: it may add
rows of that zone, and those name records that Core wrote if the old rows do. -/
def zoneScope (x : Texts) (ref : Ref) (owned : List Row) (w : World) (wrote : List (Ref × Record)) :
    Scope where
  adds e := e.ref = ref ∧
    ((∀ r ∈ w.wrote, Clean x r.2) → (∀ o ∈ owned, Written x w.wrote o.toEntry) →
      Written x wrote e)
  drops id := ∃ o ∈ owned, o.id = id
  touches t := t.ref = ref ∧ t.rows = w.ledger ∧ Named x owned t.record
  writes e := Clean x e.2

variable {existing : List Record} {p : RecordPlan} {wrote : List (Ref × Record)} {w : World}

section

variable (hp : Planned x existing owned ref p)

include hp

theorem Planned.row_ref : p.row.ref = ref := by
  obtain ⟨d, hrow⟩ := hp.row
  rw [hrow]
  rfl

/-- A planned record that is found under its key, where no record is foreign, was written. -/
theorem Planned.written_of_mem
    (howned : ∀ o ∈ owned, o.ref = ref)
    (hrec : rec ∈ recordsAt x existing p.k)
    (hsame : sameValue x p.want.type rec.value rec.port p.want.value p.want.port = true)
    (hclean : ∀ r ∈ wrote, Clean x r.2) (hw : ∀ o ∈ owned, Written x wrote o.toEntry) :
    Written x wrote p.row.toEntry := by
  obtain ⟨o, ho, hown⟩ := named_of_not_foreign hp.free hrec
  have ho' := mem_of_mem_filter ho
  have hkey : providerKey x rec = p.k := of_decide_eq_true (mem_filter.mp hrec).2
  exact (hw o ho').of_owns hclean hown (hp.describes hkey hsame) (hp.row_ref.trans (howned o ho').symm)

/-- A planned record that was sent and applied was written. -/
theorem Planned.written_of_sent
    (h : (ref, toProvider p.want) ∈ wrote) :
    Written x wrote p.row.toEntry := by
  refine ⟨toProvider p.want, hp.row_ref.symm ▸ h, hp.describes ?_ ?_⟩
  · rw [providerKey_toProvider hp.expected, hp.key]
  · rw [toProvider_value, toProvider_port]
    simp [sameValue]

end

theorem settles_finishZone {w₀ : World} {zp : ZonePlan}
    (hadds : ∀ p ∈ zp.plans, (zoneScope x ref owned w₀ wrote).adds p.row.toEntry)
    (hdelete : ∀ d ∈ zp.toDelete, Named x owned d)
    (hdrop : ∀ id ∈ zp.dropAfter, ∃ o ∈ owned, o.id = id) :
    Settles (zoneScope x ref owned w₀ wrote) w
      (finishZone x site replies w ref now w₀.ledger owned zp) := by
  have hsettle : ∀ w, Settles (zoneScope x ref owned w₀ wrote) w
      (zp.plans.foldl (fun w p ↦ w.settleKey replies p.row (rowsAt x owned p.k)) w) :=
    Settles.foldl fun w p hp ↦ settles_settleKey replies w (hadds p hp) fun o ho ↦
      ⟨o, mem_of_mem_filter ho, rfl⟩
  have hdel : ∀ w : World, Settles (zoneScope x ref owned w₀ wrote) w
      (w.deleteAny x site ref w₀.ledger zp.toDelete replies.delete) := by
    intro w
    unfold deleteAny
    split
    · exact Settles.refl w
    refine ⟨le_refl _, fun t ht ↦ ?_, fun _ he ↦ .inl he, fun _ he ↦ he,
      fun o ho ↦ .inl ⟨o, ho, rfl, rfl⟩, fun _ ho _ _ ↦ ho⟩
    rcases mem_append.mp ht with ht | ht
    · exact .inl ht
    · obtain ⟨rec, hrec, rfl⟩ := mem_map.mp ht
      exact .inr ⟨rfl, rfl, named_of_removed hdelete (mem_filter.mp hrec).2⟩
  unfold finishZone
  refine ((hsettle w).trans (hdel _)).trans ?_
  split
  · exact Settles.fail _ _ _
  · exact (settles_dropRows replies _ hdrop).trans (Settles.of_eq rfl rfl rfl rfl)

/-- What the provider stores for a record has its key and its value. -/
theorem SetReply.stored_spec (reply : SetReply) (rec : Record) :
    providerKey x (reply.stored x rec) = providerKey x rec ∧
      sameValue x rec.type (reply.stored x rec).value (reply.stored x rec).port rec.value rec.port
        = true := by
  unfold SetReply.stored
  simp only
  split
  · rename_i h
    exact h.2
  · exact ⟨rfl, by simp [sameValue]⟩

theorem SetReply.mem_written {reply : SetReply} {recs : List Record}
    (h : rec ∈ reply.written recs) : rec ∈ recs := by
  unfold SetReply.written at h
  split at h
  · exact h
  · exact mem_of_mem_filter h

/-- A write stays in the scope: it replaces what is named, and it writes what is wanted. -/
theorem settles_setRecords {plans : List RecordPlan}
    (hplans : ∀ p ∈ plans, Planned x (w.zones (site ref)) owned ref p) (reply : SetReply) :
    Settles (zoneScope x ref owned w wrote) w
      (w.setRecords x site ref w.ledger (plans.map fun p ↦ toProvider p.want) reply) := by
  refine ⟨le_refl _, fun t ht ↦ ?_, fun e he ↦ ?_, fun _ he ↦ mem_append_left _ he,
    fun o ho ↦ .inl ⟨o, ho, rfl, rfl⟩, fun _ ho _ _ ↦ ho⟩
  · rcases mem_append.mp ht with ht | ht
    · exact .inl ht
    · obtain ⟨rec, hrec, rfl⟩ := mem_map.mp ht
      obtain ⟨hmem, hrep⟩ := mem_filter.mp hrec
      exact .inr ⟨rfl, rfl, named_of_replaced hplans hmem hrep⟩
  · rcases mem_append.mp he with he | he
    · exact .inl he
    · obtain ⟨rec, hrec, rfl⟩ := mem_map.mp he
      obtain ⟨p, hp, rfl⟩ := mem_map.mp (SetReply.mem_written hrec)
      exact .inr (clean_toProvider (hplans p hp).expected)

/-- What is found with the value of a planned record after a failed write was written: it was there
before and is named, or it was just sent. -/
theorem written_of_foundClean {plans : List RecordPlan}
    (hplans : ∀ p ∈ plans, Planned x (w.zones (site ref)) owned ref p)
    (howned : ∀ o ∈ owned, o.ref = ref) (reply : SetReply) (hp : p ∈ plans)
    (hfound : foundClean x ((w.setRecords x site ref w.ledger
      (plans.map fun p ↦ toProvider p.want) reply).zones (site ref)) owned p = true)
    (hclean : ∀ r ∈ w.wrote, Clean x r.2) (hw : ∀ o ∈ owned, Written x w.wrote o.toEntry) :
    Written x (w.setRecords x site ref w.ledger (plans.map fun p ↦ toProvider p.want) reply).wrote
      p.row.toEntry := by
  have hpl := hplans p hp
  simp only [foundClean, and_eq_true] at hfound
  obtain ⟨rec, hrec, hsame⟩ := any_eq_true.mp hfound.1
  obtain ⟨hmem, hkey⟩ := mem_filter.mp hrec
  rw [decide_eq_true_eq] at hkey
  simp only [setRecords, if_true] at hmem
  rcases mem_append.mp hmem with hmem | hmem
  · refine (hpl.written_of_mem howned (mem_filter.mpr
      ⟨mem_of_mem_filter hmem, decide_eq_true hkey⟩) hsame hclean hw).mono fun r hr ↦ ?_
    exact mem_append_left _ hr
  · obtain ⟨s, hs, rfl⟩ := mem_map.mp hmem
    obtain ⟨hskey, hsval⟩ := reply.stored_spec (x := x) s
    refine ⟨s, ?_, hpl.describes (hskey.symm.trans hkey) ?_⟩
    · rw [hpl.row_ref]
      exact mem_append_right _ (mem_map.mpr ⟨s, hs, rfl⟩)
    have htype : s.type = p.want.type := by
      rw [← providerKey_type (x := x) s, ← hskey, hkey, hpl.key]
      rfl
    simp only [sameValue, and_eq_true, or_eq_true, decide_eq_true_eq] at hsame hsval ⊢
    rw [htype] at hsval
    refine ⟨hsval.1.symm.trans hsame.1, ?_⟩
    rcases hsval.2 with hne | hport
    · exact .inl hne
    · exact hsame.2.imp id fun hport' ↦ hport.symm.trans hport'

/-- A record that stands alone under its key with the wanted value is left as it is. -/
theorem Planned.written_of_sameRecord (hp : Planned x existing owned ref p)
    (howned : ∀ o ∈ owned, o.ref = ref)
    (hsame : sameRecord x (recordsAt x existing p.k) p.want = true)
    (hclean : ∀ r ∈ wrote, Clean x r.2) (hw : ∀ o ∈ owned, Written x wrote o.toEntry) :
    Written x wrote p.row.toEntry := by
  unfold sameRecord at hsame
  split at hsame
  · rename_i rec heq
    exact hp.written_of_mem howned (heq ▸ mem_singleton_self rec) hsame hclean hw
  · cases hsame

/-- **One zone stays in its scope.** -/
theorem settles_writeZone (howned : ∀ o ∈ owned, o.ref = ref) :
    ∃ wrote, (∀ e ∈ wrote, e ∈ (writeZone x site replies w ref now owned
        (zonePlan x (w.zones (site ref)) owned ref domains targets)).wrote) ∧
      Settles (zoneScope x ref owned w wrote) w (writeZone x site replies w ref now owned
        (zonePlan x (w.zones (site ref)) owned ref domains targets)) := by
  have hplans : ∀ p ∈ (zonePlan x (w.zones (site ref)) owned ref domains targets).plans,
      Planned x (w.zones (site ref)) owned ref p := fun p ↦ zonePlan_plans
  have hset : ∀ p ∈ (zonePlan x (w.zones (site ref)) owned ref domains targets).setPlans,
      Planned x (w.zones (site ref)) owned ref p := fun p hp ↦ hplans p (zonePlan_setPlans.mp hp).1
  generalize hzp : zonePlan x (w.zones (site ref)) owned ref domains targets = zp at hplans hset
  have hdelete : ∀ d ∈ zp.toDelete, Named x owned d := fun d hd ↦ zonePlan_toDelete (hzp ▸ hd)
  have hdrop : ∀ id ∈ zp.dropAfter, ∃ o ∈ owned, o.id = id :=
    fun id hid ↦ zonePlan_dropAfter (hzp ▸ hid)
  -- A planned record is either sent or left as it is.
  have hleft : ∀ p ∈ zp.plans, p ∈ zp.setPlans ∨
      sameRecord x (recordsAt x (w.zones (site ref)) p.k) p.want = true := by
    intro p hp
    subst hzp
    by_cases hs : sameRecord x (recordsAt x (w.zones (site ref)) p.k) p.want = true
    · exact .inr hs
    · exact .inl (zonePlan_setPlans.mpr ⟨hp, eq_false_iff.mpr hs⟩)
  unfold writeZone
  simp only
  split
  · rename_i hnone
    have hfin : Settles (zoneScope x ref owned w w.wrote) w
        (finishZone x site replies w ref now w.ledger owned zp) := by
      refine settles_finishZone (fun p hp ↦ ⟨(hplans p hp).row_ref, fun hclean hw ↦ ?_⟩) hdelete hdrop
      rcases hleft p hp with hp' | hs
      · exact absurd hp' (by simp [map_eq_nil_iff.mp hnone])
      · exact (hplans p hp).written_of_sameRecord howned hs hclean hw
    exact ⟨w.wrote, hfin.wroteKept, hfin⟩
  · set w₁ := w.setRecords x site ref w.ledger (zp.setPlans.map fun p ↦ toProvider p.want) replies.set
    have hwrite (wrote) : Settles (zoneScope x ref owned w wrote) w w₁ :=
      settles_setRecords hset replies.set
    split
    · rename_i hok
      have hfin : Settles (zoneScope x ref owned w w₁.wrote) w₁
          (finishZone x site replies w₁ ref now w.ledger owned zp) := by
        refine settles_finishZone (fun p hp ↦ ⟨(hplans p hp).row_ref, fun hclean hw ↦ ?_⟩) hdelete
          hdrop
        rcases hleft p hp with hp' | hs
        · refine (hplans p hp).written_of_sent (mem_append_right _ ?_)
          rw [SetReply.written, if_pos hok]
          exact mem_map.mpr ⟨_, mem_map.mpr ⟨p, hp', rfl⟩, rfl⟩
        · exact ((hplans p hp).written_of_sameRecord howned hs hclean hw).mono fun _ hr ↦
            mem_append_left _ hr
      exact ⟨_, hfin.wroteKept, (hwrite _).trans hfin⟩
    · have hpart : Settles (zoneScope x ref owned w w₁.wrote) w₁
          (ledgerPartialWrite x site replies w₁ ref owned zp.setPlans) := by
        unfold ledgerPartialWrite
        split
        · refine Settles.foldl (fun w' p hp ↦ ?_) _
          split
          · rename_i hfound
            exact settles_addOwned replies w' ⟨(hset p hp).row_ref, fun hclean hw ↦
              written_of_foundClean hset howned replies.set hp hfound hclean hw⟩
          · exact Settles.refl w'
        · exact Settles.refl _
      have hall := hpart.trans (Settles.fail _ ref now)
      exact ⟨_, hall.wroteKept, (hwrite _).trans hall⟩

theorem settles_syncZone (site : Ref → Nat) (w : World) (domains : List Domain)
    (targets : Nat → Target) (now : Nat) (replies : Replies) (howned : ∀ o ∈ owned, o.ref = ref) :
    ∃ wrote, (∀ e ∈ wrote, e ∈ (syncZone x site w ref domains owned targets now replies).1.wrote) ∧
      Settles (zoneScope x ref owned w wrote) w
        (syncZone x site w ref domains owned targets now replies).1 := by
  have hstay : ∃ wrote, (∀ e ∈ wrote, e ∈ w.wrote) ∧ Settles (zoneScope x ref owned w wrote) w w :=
    ⟨w.wrote, fun _ he ↦ he, Settles.refl w⟩
  have hfail : ∃ wrote, (∀ e ∈ wrote, e ∈ (w.fail ref now).wrote) ∧
      Settles (zoneScope x ref owned w wrote) w (w.fail ref now) :=
    ⟨w.wrote, fun _ he ↦ he, Settles.fail w ref now⟩
  unfold syncZone
  split
  · exact hstay
  split
  · exact hstay
  · exact hfail
  · split
    · exact settles_writeZone howned
    · exact hfail

end Zone

/-! ## A pass -/

/-- Ids are handed out once: rows with the same id are of the same zone. -/
structure Numbered (w : World) : Prop where
  below : ∀ o ∈ w.ledger, o.id < w.nextID
  sameRef : ∀ o ∈ w.ledger, ∀ o' ∈ w.ledger, o.id = o'.id → o.ref = o'.ref

/-- Every record that was touched is named by a row of its zone in the ledger of that time. -/
def TouchedOwned (x : Texts) (w : World) : Prop :=
  ∀ t ∈ w.touched, ∃ o ∈ t.rows, o.ref = t.ref ∧ ownsRecord x o.toEntry t.record = true

/-- Every row names a record that Core wrote. -/
structure Sound (x : Texts) (w : World) : Prop where
  clean : ∀ r ∈ w.wrote, Clean x r.2
  written : ∀ o ∈ w.ledger, Written x w.wrote o.toEntry

/-- In the middle of a pass that listed `rows` when ids up to `nextID` were in use: the listed rows of
the zones that are still to be done are in the ledger. -/
structure During (x : Texts) (rows : List Row) (nextID : Nat) (todo : List Ref) (w : World) :
    Prop where
  nextID_le : nextID ≤ w.nextID
  numbered : Numbered w
  sameRef : ∀ o ∈ rows, ∀ o' ∈ w.ledger, o'.id = o.id → o'.ref = o.ref
  kept : ∀ o ∈ rows, o.ref ∈ todo → o ∈ w.ledger
  touched : TouchedOwned x w

section Pass

variable {ref : Ref} {domains : List Domain} {targets : Nat → Target} {now : Nat} {replies : Replies}
  {rows : List Row} {nextID : Nat} {todo : List Ref} {w : World}

theorem Numbered.settles {w' : World} {owned : List Row} {wrote : List (Ref × Record)}
    (h : Numbered w) (hs : Settles (zoneScope x ref owned w wrote) w w') : Numbered w' where
  below o ho := by
    rcases hs.rows o ho with ⟨o₀, ho₀, hid, -⟩ | ⟨-, hlt, -⟩
    · exact hid ▸ lt_of_lt_of_le (h.below o₀ ho₀) hs.nextID
    · exact hlt
  sameRef o ho o' ho' heq := by
    rcases hs.rows o ho with ⟨o₀, ho₀, hid, hentry⟩ | ⟨hle, -, hadd⟩
    · rcases hs.rows o' ho' with ⟨o₁, ho₁, hid₁, hentry₁⟩ | ⟨hle₁, -, -⟩
      · rw [← hentry, ← hentry₁]
        exact h.sameRef o₀ ho₀ o₁ ho₁ (hid.trans (heq.trans hid₁.symm))
      · exact absurd (h.below o₀ ho₀) (by omega)
    · rcases hs.rows o' ho' with ⟨o₁, ho₁, hid₁, -⟩ | ⟨-, -, hadd₁⟩
      · exact absurd (h.below o₁ ho₁) (by omega)
      · exact hadd.1.trans hadd₁.1.symm

/-- The rows of the other zones are left alone. -/
theorem During.zone (hbelow : ∀ o ∈ rows, o.id < nextID) (hnot : ref ∉ todo)
    (h : During x rows nextID (ref :: todo) w) :
    During x rows nextID todo (syncZone x site w ref domains (rows.filter fun o ↦ o.ref = ref)
      targets now replies).1 := by
  have howned : ∀ o ∈ rows.filter fun o ↦ o.ref = ref, o.ref = ref :=
    fun o ho ↦ of_decide_eq_true (mem_filter.mp ho).2
  obtain ⟨wrote, -, hs⟩ := settles_syncZone (x := x) site w domains targets now replies howned
  refine ⟨h.nextID_le.trans hs.nextID, h.numbered.settles hs, fun o ho o' ho' hid ↦ ?_,
    fun o ho htodo ↦ ?_, fun t ht ↦ ?_⟩
  · rcases hs.rows o' ho' with ⟨o₀, ho₀, hid₀, hentry⟩ | ⟨hle, -, -⟩
    · rw [← hentry]
      exact h.sameRef o ho o₀ ho₀ (hid₀.trans hid)
    · have := hbelow o ho
      have := h.nextID_le
      omega
  · have hne : o.ref ≠ ref := fun heq ↦ hnot (heq ▸ htodo)
    have hmem := h.kept o ho (mem_cons_of_mem _ htodo)
    refine hs.kept o hmem (fun hadd ↦ hne hadd.1) ?_
    rintro ⟨o₂, ho₂, hid⟩
    exact hne ((h.sameRef o₂ (mem_of_mem_filter ho₂) o hmem hid.symm).trans (howned o₂ ho₂))
  · rcases hs.touched t ht with hold | ⟨href, hrows, o, ho, hown⟩
    · exact h.touched t hold
    · have ho' := mem_of_mem_filter ho
      refine ⟨o, hrows ▸ h.kept o ho' ?_, (howned o ho).trans href.symm, hown⟩
      exact howned o ho ▸ mem_cons_self

theorem Sound.zone (h : Sound x w) (hrows : ∀ o ∈ rows, Written x w.wrote o.toEntry) :
    Sound x (syncZone x site w ref domains (rows.filter fun o ↦ o.ref = ref) targets now replies).1 ∧
      ∀ o ∈ rows, Written x (syncZone x site w ref domains (rows.filter fun o ↦ o.ref = ref) targets
        now replies).1.wrote o.toEntry := by
  have howned : ∀ o ∈ rows.filter fun o ↦ o.ref = ref, o.ref = ref :=
    fun o ho ↦ of_decide_eq_true (mem_filter.mp ho).2
  obtain ⟨wrote, hsub, hs⟩ := settles_syncZone (x := x) site w domains targets now replies howned
  refine ⟨⟨fun r hr ↦ ?_, fun o ho ↦ ?_⟩, fun o ho ↦ (hrows o ho).mono hs.wroteKept⟩
  · exact (hs.wrote r hr).elim (h.clean r) id
  · rcases hs.rows o ho with ⟨o₀, ho₀, -, hentry⟩ | ⟨-, -, -, hwritten⟩
    · exact hentry ▸ (h.written o₀ ho₀).mono hs.wroteKept
    · exact (hwritten h.clean fun o ho ↦ hrows o (mem_of_mem_filter ho)).mono hsub

variable {P : List Ref → World → Prop}

/-- What is kept by every step of a loop over different zones holds behind it. -/
theorem foldl_rec {β : Type} {f : World × β → Ref → World × β}
    (hf : ∀ ref todo acc, ref ∉ todo → P (ref :: todo) acc.1 → P todo (f acc ref).1)
    {refs : List Ref} {acc : World × β} (hnodup : refs.Nodup) (h : P refs acc.1) :
    P [] (refs.foldl f acc).1 := by
  induction refs generalizing acc with
  | nil => exact h
  | cons ref refs ih =>
    exact ih (nodup_cons.mp hnodup).2 (hf ref refs acc (nodup_cons.mp hnodup).1 h)

variable {p : Pass}

/-- What every zone of a pass keeps, the pass keeps. -/
theorem runOnce_rec (site : Ref → Nat) (hlisted : p.listed = true)
    (h0 : P (p.refs w.ledger) w) (hzone : ∀ ref todo w', ref ∉ todo → P (ref :: todo) w' →
      P todo (syncZone x site w' ref ((p.domains.filter fun d ↦ d.1 = ref).map Prod.snd)
        (w.ledger.filter fun o ↦ o.ref = ref) p.targets p.now (p.replies ref)).1) :
    P [] (runOnce x site w p).1 := by
  have hnodup : (p.refs w.ledger).Nodup :=
    (perm_insertionSort _ _).nodup_iff.mpr (nodup_dedup _)
  unfold runOnce
  rw [if_pos hlisted]
  refine foldl_rec (fun ref todo acc hnot h ↦ ?_) hnodup h0
  exact hzone ref todo acc.1 hnot h

theorem owned_runOnce (hn : Numbered w) (ht : TouchedOwned x w) :
    Numbered (runOnce x site w p).1 ∧ TouchedOwned x (runOnce x site w p).1 := by
  by_cases hlisted : p.listed = true
  · have hstart : During x w.ledger w.nextID (p.refs w.ledger) w :=
      ⟨le_refl _, hn, fun o ho o' ho' hid ↦ hn.sameRef o' ho' o ho hid, fun o ho _ ↦ ho, ht⟩
    have hend := runOnce_rec (x := x) site (P := During x w.ledger w.nextID) hlisted hstart
      fun _ _ _ hnot h ↦ h.zone hn.below hnot
    exact ⟨hend.numbered, hend.touched⟩
  · unfold runOnce
    rw [if_neg hlisted]
    exact ⟨hn, ht⟩

theorem Sound.runOnce (h : Sound x w) : Sound x (runOnce x site w p).1 := by
  by_cases hlisted : p.listed = true
  · have hend := runOnce_rec (x := x) site
      (P := fun _ w' ↦ Sound x w' ∧ ∀ o ∈ w.ledger, Written x w'.wrote o.toEntry) hlisted
      ⟨h, h.written⟩ fun _ _ _ _ h ↦ h.1.zone h.2
    exact hend.1
  · unfold Domains.runOnce
    rw [if_neg hlisted]
    exact h

end Pass

section Runs

variable {w w' : World} {a : Event}

theorem Numbered.map (h : Numbered w) {f : Row → Row} (hf : ∀ o, (f o).id = o.id ∧ (f o).ref = o.ref) :
    Numbered { w with ledger := w.ledger.map f } where
  below o ho := by
    obtain ⟨o₀, ho₀, rfl⟩ := mem_map.mp ho
    rw [(hf o₀).1]
    exact h.below o₀ ho₀
  sameRef o ho o' ho' heq := by
    obtain ⟨o₀, ho₀, rfl⟩ := mem_map.mp ho
    obtain ⟨o₁, ho₁, rfl⟩ := mem_map.mp ho'
    rw [(hf o₀).1, (hf o₁).1] at heq
    rw [(hf o₀).2, (hf o₁).2]
    exact h.sameRef o₀ ho₀ o₁ ho₁ heq

theorem Numbered.filter (h : Numbered w) (q : Row → Bool) :
    Numbered { w with ledger := w.ledger.filter q } where
  below o ho := h.below o (List.mem_of_mem_filter ho)
  sameRef o ho o' ho' := h.sameRef o (List.mem_of_mem_filter ho) o' (List.mem_of_mem_filter ho')

theorem owned_step (hn : Numbered w) (ht : TouchedOwned x w) (h : step x site w a = some w') :
    Numbered w' ∧ TouchedOwned x w' := by
  cases a with
  | pass p =>
    cases h
    exact owned_runOnce hn ht
  | edit n records =>
    cases h
    exact ⟨⟨hn.below, hn.sameRef⟩, ht⟩
  | removeDomain id =>
    cases h
    refine ⟨hn.map fun o ↦ ?_, ht⟩
    split <;> exact ⟨rfl, rfl⟩
  | removeAccount account =>
    cases h
    exact ⟨hn.filter _, ht⟩

theorem Sound.step (hs : Sound x w) (h : step x site w a = some w') : Sound x w' := by
  cases a with
  | pass p =>
    cases h
    exact hs.runOnce
  | edit n records =>
    cases h
    exact ⟨hs.clean, hs.written⟩
  | removeDomain id =>
    cases h
    refine ⟨hs.clean, fun o ho ↦ ?_⟩
    obtain ⟨o₀, ho₀, rfl⟩ := mem_map.mp ho
    split
    · exact hs.written o₀ ho₀
    · exact hs.written o₀ ho₀
  | removeAccount account =>
    cases h
    exact ⟨hs.clean, fun o ho ↦ hs.written o (mem_of_mem_filter ho)⟩

/-- A world to start from: no pass has touched anything yet, ids are handed out once, and what Core
wrote are records that a domain wants. -/
structure Start (x : Texts) (w : World) : Prop where
  numbered : Numbered w
  untouched : w.touched = []
  wrote : ∀ r ∈ w.wrote, ∃ e, Expected x r.1.zone e ∧ r.2 = toProvider e

/-- **The reconciler touches only records it owns.**  In every run of passes, whichever calls fail and
however much of them is applied, a record that a pass asks a provider to replace or delete is named by a row
of its zone that was in the ledger when the pass read the zone.  And if every row names a record that Core
wrote at the start, every row names one at the end. -/
theorem touches_only_owned {w₀ : World} (h₀ : Start x w₀) (h : Reach (step x site) anyStep w₀ w) :
    (∀ t ∈ w.touched, ∃ o ∈ t.rows, o.ref = t.ref ∧ ownsRecord x o.toEntry t.record = true) ∧
      ((∀ o ∈ w₀.ledger, Written x w₀.wrote o.toEntry) →
        ∀ o ∈ w.ledger, ∃ rec, (o.ref, rec) ∈ w.wrote ∧ ownsRecord x o.toEntry rec = true) := by
  constructor
  · have hinv : Numbered w ∧ TouchedOwned x w :=
      h.invariant (P := fun w ↦ Numbered w ∧ TouchedOwned x w)
      ⟨h₀.numbered, fun t ht ↦ absurd ht (by simp [h₀.untouched])⟩
      fun _ _ _ hw _ hstep ↦ owned_step hw.1 hw.2 hstep
    exact hinv.2
  · intro hwritten
    have hclean : ∀ r ∈ w₀.wrote, Clean x r.2 := by
      intro r hr
      obtain ⟨e, he, heq⟩ := h₀.wrote r hr
      exact heq ▸ clean_toProvider he
    have hsound : Sound x w := h.invariant (P := Sound x) ⟨hclean, hwritten⟩
      fun _ _ _ hs _ hstep ↦ hs.step hstep
    exact fun o ho ↦ (hsound.written o ho).owns hsound.clean

/-! ### A run -/

theorem not_upper_of_isPlain {b : UInt8} (h : isPlain b = true) : ¬ (0x41 ≤ b ∧ b ≤ 0x5A) := by
  have hall : ∀ n < 256, isPlain (UInt8.ofNat n) = true →
      ¬ (0x41 ≤ UInt8.ofNat n ∧ UInt8.ofNat n ≤ 0x5A) := by decide +kernel
  have hb : b = UInt8.ofNat b.toNat := by simp
  rw [hb] at h ⊢
  exact hall b.toNat b.toNat_lt h

/-- A stand-in for the text functions, with an address as its number. -/
def plainTexts : Texts where
  lower t := t.map fun b ↦ if 0x41 ≤ b ∧ b ≤ 0x5A then b + 0x20 else b
  parseAddr t := if t.all isDigit then some (.v4 (BitVec.ofNat 32 (decimal t))) else none
  str
    | .v4 bits => Fields.formatNat bits.toNat
    | .v6 _ zone => zone
  lower_plain t ht := by
    refine (List.map_congr_left fun b hb ↦ if_neg (?_)).trans (List.map_id t)
    exact not_upper_of_isPlain (List.all_eq_true.mp ht b hb)
  parse_str bits := by
    rw [if_pos (List.all_eq_true.mpr fun b hb ↦ Fields.isDigit_of_mem_formatNat hb),
      Fields.decimal_formatNat, BitVec.ofNat_toNat, BitVec.setWidth_eq]
  trim_str bits := by
    refine trimSpace_of_trimmed (trimmed_of_plain (List.all_eq_true.mpr fun b hb ↦ ?_))
    have := Fields.isDigit_of_mem_formatNat hb
    simp only [isDigit, Bool.and_eq_true] at this
    simp [isPlain, this]

def theZone : Ref := ⟨1, ⟨lit "example.net", by decide +kernel, by decide +kernel, by decide +kernel⟩⟩

def theDomain : Domain := ⟨7, 3, lit "play.example.net", ⟨lit "play", by decide +kernel⟩⟩

/-- Every call succeeds. -/
def allWell : Replies where
  account := some true
  get := true
  set := ⟨true, fun _ ↦ true, fun _ ↦ false, id⟩
  reread := true
  delete := ⟨true, fun _ ↦ false⟩
  store _ := .ok

/-- A pass while the server is at this address. -/
def passAt (ip : BitVec 32) (replies : Replies) : Pass where
  domains := [(theZone, theDomain)]
  targets _ := ⟨some ip, 25570⟩
  now := 0
  listed := true
  replies _ := replies

/-- A zone with a record made by hand. -/
def emptyLedger : World where
  zones _ := [⟨lit "www", .a, lit "77", 0⟩]
  ledger := []
  nextID := 1
  backoff _ := none
  calls := 0
  wrote := []
  touched := []

theorem start_emptyLedger : Start plainTexts emptyLedger :=
  ⟨⟨by simp [emptyLedger], by simp [emptyLedger]⟩, rfl, by simp [emptyLedger]⟩

/-- The server moves, and its record is replaced. -/
theorem touches_only_owned_moved :
    ∃ w, Reach (step plainTexts fun _ ↦ 0) anyStep emptyLedger w ∧
      w.touched.map Touch.record = [⟨lit "play", .a, lit "1", 0⟩] ∧
      (∀ t ∈ w.touched, ∃ o ∈ t.rows, o.ref = t.ref ∧
        ownsRecord plainTexts o.toEntry t.record = true) ∧
      ∀ o ∈ w.ledger, ∃ rec, (o.ref, rec) ∈ w.wrote ∧
        ownsRecord plainTexts o.toEntry rec = true := by
  have hrun : (exec (step plainTexts fun _ ↦ 0) anyStep emptyLedger
      [.pass (passAt 1 allWell), .pass (passAt 2 allWell)]).map (fun w ↦ w.touched.map Touch.record)
      = some [⟨lit "play", .a, lit "1", 0⟩] := by
    decide +kernel
  obtain ⟨w, hw, htouched⟩ := exists_reach_of_exec hrun
  have h := touches_only_owned start_emptyLedger hw
  exact ⟨w, hw, htouched, h.1, h.2 (by simp [emptyLedger])⟩

end Runs

end Dylaris.Domains
