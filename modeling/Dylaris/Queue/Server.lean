import Dylaris.Queue.Model

/-!
# The order the server keeps

Redis hands out ids in increasing order, the stream is sorted by them, the group's position only moves
forward, and what is pending has been delivered.  `Redis.Ordered` says so, and every command keeps it.
The one command that needs the order is the live read: its batch is a prefix of what is undelivered, so
the position moves exactly past it.
-/

set_option autoImplicit false

namespace Dylaris.Queue

open List Option

namespace Redis

/-- Ids increase along the stream and do not pass the last one handed out, nor does the group's position;
pending entries are behind that position. -/
structure Ordered (r : Redis) : Prop where
  sorted : r.stream.Pairwise fun a b ↦ a.id < b.id
  le_top : ∀ m ∈ r.stream, m.id ≤ r.top
  last_le : r.lastDelivered ≤ r.top
  pending_le : ∀ id, r.IsPending id → id ≤ r.lastDelivered

variable {r r' : Redis} {id i : Nat}

theorem inStream_iff : r.inStream id = true ↔ ∃ m ∈ r.stream, m.id = id := by
  simp [inStream]

/-! ## Pending entries -/

theorem isPending_ack : (r.ack id).IsPending i ↔ r.IsPending i ∧ i ≠ id := by
  constructor
  · rintro ⟨e, he, rfl⟩
    have hmem := mem_filter.mp he
    exact ⟨⟨e, hmem.1, rfl⟩, by simpa using hmem.2⟩
  · rintro ⟨⟨e, he, rfl⟩, hne⟩
    exact ⟨e, mem_filter.mpr ⟨he, by simpa using hne⟩, rfl⟩

variable {consumer : String}

theorem isPending_of_claim {ids : List Nat}
    (h : (r.claim ids consumer).IsPending i) : r.IsPending i := by
  obtain ⟨e, he, rfl⟩ := h
  obtain ⟨e₀, he₀, heq⟩ := mem_filterMap.mp he
  split at heq
  · split at heq
    · cases heq
      exact ⟨e₀, he₀, rfl⟩
    · cases heq
  · cases heq
    exact ⟨e, he₀, rfl⟩

/-- `XAUTOCLAIM` drops an entry from the pending list only where its stream entry is gone. -/
theorem isPending_claim {ids : List Nat} (hid : r.inStream i = true)
    (h : r.IsPending i) : (r.claim ids consumer).IsPending i := by
  obtain ⟨e, he, rfl⟩ := h
  by_cases hmem : e.1 ∈ ids
  · refine ⟨(e.1, consumer), mem_filterMap.mpr ⟨e, he, ?_⟩, rfl⟩
    rw [if_pos hmem, if_pos hid]
  · exact ⟨e, mem_filterMap.mpr ⟨e, he, if_neg hmem⟩, rfl⟩

theorem isPending_deliver {msgs : List Msg} :
    (r.deliver msgs consumer).IsPending i ↔ r.IsPending i ∨ ∃ m ∈ msgs, m.id = i := by
  simp [IsPending, deliver, or_and_right, exists_or]

/-! ## A live read -/

theorem lastDelivered_deliver (msgs : List Msg) (consumer : String) :
    (r.deliver msgs consumer).lastDelivered = (msgs.getLast?.map Msg.id).getD r.lastDelivered := rfl

theorem batch_append (count : Nat) (l : List Msg) : ∃ rest, batch count l ++ rest = l := by
  rw [batch]
  split
  · exact ⟨[], append_nil l⟩
  · exact ⟨_, take_append_drop count l⟩

theorem mem_undelivered {m : Msg} : m ∈ r.undelivered ↔ m ∈ r.stream ∧ r.lastDelivered < m.id := by
  simp [undelivered]

theorem mem_undelivered_of_batch {count : Nat} {m : Msg} (h : m ∈ batch count r.undelivered) :
    m ∈ r.undelivered := by
  obtain ⟨rest, hrest⟩ := batch_append count r.undelivered
  exact hrest ▸ mem_append_left rest h

namespace Ordered

/-- A live read moves the position past the entries it delivers, and past no other. -/
theorem deliver_split (h : r.Ordered) (count : Nat) (consumer : String) :
    ∃ rest, batch count r.undelivered ++ rest = r.undelivered ∧
      (∀ m ∈ batch count r.undelivered,
        m.id ≤ (r.deliver (batch count r.undelivered) consumer).lastDelivered) ∧
      ∀ m ∈ rest, (r.deliver (batch count r.undelivered) consumer).lastDelivered < m.id := by
  obtain ⟨rest, hrest⟩ := batch_append count r.undelivered
  have hsorted : (batch count r.undelivered ++ rest).Pairwise fun a b ↦ a.id < b.id := by
    rw [hrest]
    exact h.sorted.sublist filter_sublist
  obtain ⟨hbatch, -, hcross⟩ := pairwise_append.mp hsorted
  refine ⟨rest, hrest, ?_⟩
  rw [lastDelivered_deliver]
  rcases eq_nil_or_concat (batch count r.undelivered) with hnil | ⟨init, l, hconcat⟩
  · rw [hnil] at hrest ⊢
    refine ⟨fun m hm ↦ (by cases hm), fun m hm ↦ (mem_undelivered.mp ?_).2⟩
    exact hrest ▸ hm
  · rw [concat_eq_append] at hconcat
    rw [hconcat] at hbatch hcross ⊢
    rw [getLast?_concat]
    refine ⟨fun m hm ↦ ?_, fun m hm ↦ hcross l mem_concat_self m hm⟩
    rcases mem_append.mp hm with hinit | hlast
    · exact Nat.le_of_lt ((pairwise_append.mp hbatch).2.2 m hinit l mem_cons_self)
    · rw [mem_singleton.mp hlast]
      exact Nat.le_refl _

theorem le_lastDelivered_deliver (r : Redis) (count : Nat) (consumer : String) :
    r.lastDelivered ≤ (r.deliver (batch count r.undelivered) consumer).lastDelivered := by
  rw [lastDelivered_deliver]
  cases hlast : (batch count r.undelivered).getLast? with
  | none => exact Nat.le_refl _
  | some m =>
    have hm := mem_undelivered_of_batch (mem_of_getLast? hlast)
    exact Nat.le_of_lt (mem_undelivered.mp hm).2

theorem deliver (h : r.Ordered) (count : Nat) (consumer : String) :
    (r.deliver (batch count r.undelivered) consumer).Ordered where
  sorted := h.sorted
  le_top := h.le_top
  last_le := by
    rw [lastDelivered_deliver]
    cases hlast : (batch count r.undelivered).getLast? with
    | none => exact h.last_le
    | some m =>
      have hm := mem_undelivered_of_batch (mem_of_getLast? hlast)
      exact h.le_top m (mem_undelivered.mp hm).1
  pending_le i hi := by
    rcases isPending_deliver.mp hi with hi | ⟨m, hm, rfl⟩
    · exact Nat.le_trans (h.pending_le i hi) (le_lastDelivered_deliver r count consumer)
    · obtain ⟨rest, -, hle, -⟩ := h.deliver_split count consumer
      exact hle m hm

theorem publish (h : r.Ordered) {data : Option String} {trim : Nat}
    (hr : r.publish data trim = some r') : r'.Ordered := by
  obtain ⟨l, hl, rfl⟩ := map_eq_some_iff.mp hr
  have hsub : l.Sublist (r.stream ++ [⟨r.top + 1, data⟩]) := by
    rw [trimTo] at hl
    split at hl
    · cases hl
      exact drop_sublist _ _
    · cases hl
  have hle : ∀ m ∈ r.stream ++ [(⟨r.top + 1, data⟩ : Msg)], m.id ≤ r.top + 1 := by
    intro m hm
    rcases mem_append.mp hm with hm | hm
    · exact Nat.le_succ_of_le (h.le_top m hm)
    · exact Nat.le_of_eq (congrArg Msg.id (mem_singleton.mp hm))
  refine ⟨?_, fun m hm ↦ hle m (hsub.subset hm), Nat.le_succ_of_le h.last_le, h.pending_le⟩
  refine List.Pairwise.sublist hsub (pairwise_append.mpr ⟨h.sorted,
    pairwise_singleton _ _, fun m hm m' hm' ↦ ?_⟩)
  rw [mem_singleton.mp hm']
  exact Nat.lt_succ_of_le (h.le_top m hm)

/-- A command that leaves the stream and the position alone and makes nothing pending. -/
theorem of_pending (h : r.Ordered) (hstream : r'.stream = r.stream) (htop : r'.top = r.top)
    (hlast : r'.lastDelivered = r.lastDelivered) (hpend : ∀ i, r'.IsPending i → r.IsPending i) :
    r'.Ordered :=
  ⟨hstream ▸ h.sorted, by rw [hstream, htop]; exact h.le_top, by rw [hlast, htop]; exact h.last_le,
    fun i hi ↦ hlast ▸ h.pending_le i (hpend i hi)⟩

end Ordered

end Redis

end Dylaris.Queue
