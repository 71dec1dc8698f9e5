import Mathlib.Algebra.Ring.Int.Defs
import Mathlib.Data.List.Nodup
import Dylaris.Traffic.Model

/-!
# Traffic is billed once

For every counter, what has been billed and where the aggregator first met it make up its marker
(`Exact.met`), and the running tick is about to bill what the counter is ahead of its marker
(`Waiting`).  A write that fails leaves both.

Two things break the rule.  A scan that returns a key twice adds its bytes twice, because the markers move
only when the rows are written; and rows that were written although the write reports an error are written
again.  `Once` is the condition that neither happens.

What a tenant's rows of usage hold is what the parts that were billed to it add up to (`Booked`), whatever
happens.
-/

set_option autoImplicit false

namespace Dylaris.Traffic

open List Option Function Machine

/-! ## Hashes -/

theorem foldl_addBytes (h : Hash) (n : Int) : h.foldl addBytes n = n + sumByteFields h := by
  rw [sumByteFields]
  induction h generalizing n with
  | nil => simp
  | cons x h ih =>
    obtain ⟨f, m | raw⟩ := x
    · rw [foldl_cons, foldl_cons, ih, ih (addBytes 0 _)]
      show n + m + _ = n + (0 + m + _)
      omega
    · rw [foldl_cons, foldl_cons, ih]
      rfl

@[simp] theorem sumByteFields_cons_count (f : Field) (n : Int) (h : Hash) :
    sumByteFields ((f, .count n) :: h) = n + sumByteFields h := by
  rw [sumByteFields, foldl_cons, foldl_addBytes]
  show 0 + n + _ = _
  omega

@[simp] theorem sumByteFields_cons_text (f : Field) (raw : String) (h : Hash) :
    sumByteFields ((f, .text raw) :: h) = sumByteFields h := by
  rfl

/-- A counter only grows. -/
theorem sumByteFields_hincrby_le (h : Hash) (f : Field) (n : Nat) :
    sumByteFields h ≤ sumByteFields (hincrby h f n) := by
  induction h with
  | nil =>
    rw [hincrby, sumByteFields_cons_count]
    omega
  | cons x h ih =>
    obtain ⟨g, m | raw⟩ := x
    · by_cases hg : g = f
      · simp only [hincrby, hg, if_true, sumByteFields_cons_count]
        omega
      · simp only [hincrby, hg, if_false, sumByteFields_cons_count]
        omega
    · by_cases hg : g = f
      · simp only [hincrby, hg, if_true, sumByteFields_cons_text]
        exact Int.le_refl _
      · simp only [hincrby, hg, if_false, sumByteFields_cons_text]
        exact ih

/-! ## Parts -/

theorem billedIn_append (c : Counter) (ps qs : List Part) :
    billedIn c (ps ++ qs) = billedIn c ps + billedIn c qs := by
  rw [billedIn, filter_append, map_append, Tally.total_append, billedIn, billedIn]

variable {c : Counter}

theorem billedIn_of_not_mem {ps : List Part} (h : ∀ p ∈ ps, p.counter ≠ c) : billedIn c ps = 0 := by
  rw [billedIn, filter_eq_nil_iff.mpr]
  · rfl
  · intro p hp
    simpa using h p hp

variable {p : Part}

/-- The part of a counter that has one. -/
theorem billedIn_of_mem {ps : List Part} (hnodup : (ps.map Part.counter).Nodup) (hp : p ∈ ps) :
    billedIn p.counter ps = p.delta := by
  induction ps with
  | nil => cases hp
  | cons q ps ih =>
    rw [map_cons, nodup_cons] at hnodup
    have hsplit : billedIn p.counter (q :: ps) = billedIn p.counter [q] + billedIn p.counter ps :=
      billedIn_append _ [q] ps
    rw [hsplit]
    rcases mem_cons.mp hp with rfl | hp
    · have hrest : billedIn p.counter ps = 0 := billedIn_of_not_mem fun r hr hrc ↦
        hnodup.1 (mem_map.mpr ⟨r, hr, hrc⟩)
      rw [hrest]
      simp [billedIn]
    · have hq : billedIn p.counter [q] = 0 := billedIn_of_not_mem fun r hr hrc ↦ by
        rw [mem_singleton.mp hr] at hrc
        exact hnodup.1 (mem_map.mpr ⟨p, hp, hrc.symm⟩)
      rw [hq, ih hnodup.2 hp, Int.zero_add]

variable {ms : Markers} {fields : Hash}

/-- Of the markers that a part moves, the one that says what was billed is the counter's own. -/
theorem seen_mem_collectRegions {d : Counter} {had : Bool} {current delta n : Int} :
    (Marker.seen d, n) ∈ (collectRegions ms c fields had current delta).seen ↔ d = c ∧ n = current := by
  have hregions : (Marker.seen d, n) ∉ regionsSeen ms c fields had := by
    simp [regionsSeen]
  have hsubset : ∀ s totals billed, (Marker.seen d, n) ∉ (collectEdgeSubset ms s c totals billed).2 := by
    intro s totals billed
    rw [collectEdgeSubset]
    split
    · simp [collectSubset]
    · simp
  simp [collectRegions, hregions, hsubset]

/-- What the marker of a counter says has been billed. -/
def Markers.last (ms : Markers) (c : Counter) : Option Int :=
  match ms.read (.seen c) with
  | .missing => some 0
  | .value (.count n) => some n
  | _ => none

/-- A counter that adds a part is ahead of its marker. -/
theorem collect_eq_part (h : collect ms c fields = .part p) :
    ∃ last, ms.last c = some last ∧ 0 < newBytes (sumByteFields fields) last ∧
      p = collectRegions ms c fields (0 < last) (sumByteFields fields)
        (newBytes (sumByteFields fields) last) := by
  set total := sumByteFields fields
  have hcount : ∀ last : Int, (if newBytes total last ≤ 0 then Collected.nothing
      else .part (collectRegions ms c fields (0 < last) total (newBytes total last))) = .part p →
      0 < newBytes total last ∧ p = collectRegions ms c fields (0 < last) total (newBytes total last) := by
    intro last h
    split at h
    · cases h
    · cases h
      exact ⟨by omega, rfl⟩
  rw [collect] at h
  rw [Markers.last]
  cases hread : ms.read (.seen c) with
  | failed =>
    rw [hread] at h
    cases h
  | missing =>
    rw [hread] at h
    exact ⟨0, rfl, hcount 0 h⟩
  | value v =>
    cases v with
    | count last =>
      rw [hread] at h
      exact ⟨last, rfl, hcount last h⟩
    | text raw =>
      rw [hread] at h
      cases h

theorem collect_eq_restart {n : Int}
    (h : collect ms c fields = .restart n) : n = sumByteFields fields := by
  rw [collect] at h
  split at h
  · cases h
  · simp only [] at h
    split at h <;> cases h
  · simp only [] at h
    split at h <;> cases h
  · cases h
    rfl

namespace World

variable {w w' : World}

/-- What the marker of a counter says has been billed, if it is a number. -/
def mark (w : World) (c : Counter) : Option Int := Markers.last ⟨w.markers, []⟩ c

theorem mark_eq (w : World) (c : Counter) : w.mark c = match w.markers (.seen c) with
    | none => some 0
    | some (.count n) => some n
    | some (.text _) => none := by
  rw [mark, Markers.last, Markers.read, if_neg (not_mem_nil)]
  dsimp only
  rcases w.markers (.seen c) with _ | n | raw <;> rfl

variable {c : Counter} {t : Tick}

/-- A counter that has a number, or no marker, is met where that is. -/
theorem baseline_of_mark {last : Int} (h : w.mark c = some last) : w.baseline c = last := by
  rw [mark_eq] at h
  rw [baseline]
  rcases hm : w.markers (.seen c) with _ | n | raw
  · rw [hm] at h
    exact some_inj.mp h
  · rw [hm] at h
    exact some_inj.mp h
  · rw [hm] at h
    cases h

theorem baseline_of_mark_none (h : w.mark c = none) :
    w.baseline c = sumByteFields (w.counters c) := by
  rw [mark_eq] at h
  rw [baseline]
  rcases hm : w.markers (.seen c) with _ | n | raw
  · rw [hm] at h
    cases h
  · rw [hm] at h
    cases h
  · rfl

/-! ## The invariant -/

/-- A part of the running tick: what its counter was ahead of its marker when it was read. -/
structure Waiting (w : World) (t : Tick) (p : Part) : Prop where
  scanned : p.counter ∈ t.scanned
  met : ∃ b, w.met p.counter = some b
  ahead : ∃ last, w.mark p.counter = some last ∧ p.delta = p.current - last
  le : p.current ≤ sumByteFields (w.counters p.counter)
  seen : ∀ c n, (Marker.seen c, n) ∈ p.seen ↔ c = p.counter ∧ n = p.current

/-- The running tick has at most one part of every counter. -/
structure TickExact (w : World) (t : Tick) : Prop where
  waiting : ∀ e ∈ t.perTenant, ∀ p ∈ e.2.parts, Waiting w t p
  seen : ∀ e ∈ t.perTenant, e.2.seen = e.2.parts.flatMap Part.seen
  nodup : ∀ e ∈ t.perTenant, (e.2.parts.map Part.counter).Nodup
  apart : ∀ e ∈ t.perTenant, ∀ e' ∈ t.perTenant, e.1 ≠ e'.1 →
    ∀ p ∈ e.2.parts, ∀ p' ∈ e'.2.parts, p.counter ≠ p'.counter

/-- The billed markers that wait with a tenant are those of its parts. -/
theorem TickExact.mem_seen (h : TickExact w t) {e : String × Acc} (he : e ∈ t.perTenant) {n : Int} :
    (Marker.seen c, n) ∈ e.2.seen ↔ ∃ p ∈ e.2.parts, c = p.counter ∧ n = p.current := by
  rw [h.seen e he, mem_flatMap]
  exact exists_congr fun p ↦ and_congr_right fun hp ↦ (h.waiting e he p hp).seen c n

structure Exact (w : World) : Prop where
  grown : ∀ c n, w.markers (.seen c) = some (.count n) → n ≤ sumByteFields (w.counters c)
  unmet : ∀ c, w.met c = none → w.read c = none
  unbilled : ∀ c, w.read c = none → w.billed c = 0
  met : ∀ c b, w.met c = some b → w.mark c = some (b + w.billed c)
  read : ∀ c v b, w.read c = some v → w.met c = some b → v = b + w.billed c
  tick : ∀ t, w.tick = some t → TickExact w t

/-- The aggregator has not run, and no marker is ahead of its counter. -/
structure Fresh (w : World) : Prop where
  tick : w.tick = none
  bills : w.bills = []
  met : ∀ c, w.met c = none
  read : ∀ c, w.read c = none
  grown : ∀ c n, w.markers (.seen c) = some (.count n) → n ≤ sumByteFields (w.counters c)

theorem Fresh.exact (h : w.Fresh) : w.Exact where
  grown := h.grown
  unmet c _ := h.read c
  unbilled c _ := by
    rw [billed, h.bills]
    rfl
  met c b hb := by
    rw [h.met c] at hb
    cases hb
  read c v b hv := by
    rw [h.read c] at hv
    cases hv
  tick t ht := by
    rw [h.tick] at ht
    cases ht

/-! ## The condition -/

/-- The counters only grow, and the markers can be read. -/
def Growing (_ : World) : Label → Prop
  | .expire _ => False
  | .scan _ unread => unread = []
  | _ => True

instance (w : World) (a : Label) : Decidable (w.Growing a) := by
  cases a <;> unfold World.Growing <;> infer_instance

/-- In addition, no scan returns a key that the tick has had before, and what is written is reported so. -/
def Once (w : World) : Label → Prop
  | .expire _ => False
  | .scan c unread => unread = [] ∧ ∀ t ∈ w.tick, c ∉ t.scanned
  | .write _ o => o ≠ .lost
  | _ => True

instance (w : World) (a : Label) : Decidable (w.Once a) := by
  cases a <;> unfold World.Once <;> infer_instance

/-! ## Steps -/

/-- What the counters and the tick do without the markers. -/
theorem Exact.congr (h : w.Exact) (hmarkers : w'.markers = w.markers) (hbills : w'.bills = w.bills)
    (hmet : w'.met = w.met) (hread : w'.read = w.read)
    (hcounters : ∀ c, sumByteFields (w.counters c) ≤ sumByteFields (w'.counters c))
    (htick : ∀ t', w'.tick = some t' → t'.perTenant = [] ∨ ∃ t, w.tick = some t ∧
      (∀ c ∈ t.scanned, c ∈ t'.scanned) ∧ ∀ e ∈ t'.perTenant, e ∈ t.perTenant) : w'.Exact := by
  have hbilled : ∀ c, w'.billed c = w.billed c := fun c ↦ by rw [billed, billed, hbills]
  have hmark : ∀ c, w'.mark c = w.mark c := fun c ↦ by rw [mark, mark, hmarkers]
  refine ⟨fun c n hn ↦ ?_, fun c hc ↦ ?_, fun c hc ↦ ?_, fun c b hb ↦ ?_, fun c v b hv hb ↦ ?_,
    fun t' ht' ↦ ?_⟩
  · rw [hmarkers] at hn
    exact Int.le_trans (h.grown c n hn) (hcounters c)
  · rw [hread]
    exact h.unmet c (hmet ▸ hc)
  · rw [hbilled]
    exact h.unbilled c (hread ▸ hc)
  · rw [hmark, hbilled]
    exact h.met c b (hmet ▸ hb)
  · rw [hbilled]
    exact h.read c v b (hread ▸ hv) (hmet ▸ hb)
  · obtain hnil | ⟨t, ht, hscanned, hsub⟩ := htick t' ht'
    · exact ⟨by simp [hnil], by simp [hnil], by simp [hnil], by simp [hnil]⟩
    · have htick := h.tick t ht
      refine ⟨fun e he p hp ↦ ?_, fun e he ↦ htick.seen e (hsub e he),
        fun e he ↦ htick.nodup e (hsub e he),
        fun e he e' he' ↦ htick.apart e (hsub e he) e' (hsub e' he')⟩
      obtain ⟨hs, hm, ha, hle, hseen⟩ := htick.waiting e (hsub e he) p hp
      exact ⟨hscanned _ hs, hmet ▸ hm, by rwa [hmark], Int.le_trans hle (hcounters _), hseen⟩

theorem meet_met (c : Counter) :
    (w.meet c).met = update w.met c (some ((w.met c).getD (w.baseline c))) := rfl

/-- The aggregator meets a counter whose marker is a number, or is not there. -/
theorem Exact.meet (h : w.Exact) (hmark : ∃ last, w.mark c = some last) : (w.meet c).Exact := by
  obtain ⟨last, hlast⟩ := hmark
  have hmet : ∀ d b, (w.meet c).met d = some b →
      w.met d = some b ∨ (d = c ∧ w.met d = none ∧ b = last) := by
    intro d b hb
    by_cases hd : d = c
    · subst hd
      rw [meet_met, update_self, some_inj, baseline_of_mark hlast] at hb
      cases hold : w.met d with
      | none => exact .inr ⟨rfl, rfl, by rw [← hb, hold]; rfl⟩
      | some b₀ => exact .inl (by rw [← hb, hold]; rfl)
    · rw [meet_met, update_of_ne hd] at hb
      exact .inl hb
  refine ⟨h.grown, fun d hd ↦ ?_, h.unbilled, fun d b hb ↦ ?_, fun d v b hv hb ↦ ?_,
    fun t ht ↦ ?_⟩
  · by_cases hdc : d = c
    · subst hdc
      rw [meet_met, update_self] at hd
      cases hd
    · rw [meet_met, update_of_ne hdc] at hd
      exact h.unmet d hd
  · obtain hb | ⟨rfl, hnone, rfl⟩ := hmet d b hb
    · exact h.met d b hb
    · show w.mark d = some (b + w.billed d)
      rw [h.unbilled d (h.unmet d hnone), hlast, Int.add_zero]
  · obtain hb | ⟨rfl, hnone, _⟩ := hmet d b hb
    · exact h.read d v b hv hb
    · have hv : w.read d = some v := hv
      rw [h.unmet d hnone] at hv
      cases hv
  · have htick := h.tick t ht
    refine ⟨fun e he p hp ↦ ?_, htick.seen, htick.nodup, htick.apart⟩
    obtain ⟨hs, ⟨b, hb⟩, ha, hle, hseen⟩ := htick.waiting e he p hp
    refine ⟨hs, ?_, ha, hle, hseen⟩
    by_cases hpc : p.counter = c
    · rw [meet_met, hpc, update_self]
      exact ⟨_, rfl⟩
    · rw [meet_met, update_of_ne hpc]
      exact ⟨b, hb⟩

/-! ### A key -/

theorem acc_cases (t : Tick) (tenant : String) :
    (∃ e ∈ t.perTenant, e.1 = tenant ∧ t.acc tenant = e.2) ∨ t.acc tenant = .empty := by
  rw [Tick.acc]
  cases hfind : t.perTenant.find? fun e ↦ e.1 = tenant with
  | none => exact .inr rfl
  | some e => exact .inl ⟨e, mem_of_find?_eq_some hfind, by simpa using find?_some hfind, rfl⟩

/-- A counter that the tick has no part of adds one. -/
theorem TickExact.add (h : TickExact w t) (hp : Waiting w t p)
    (hnew : ∀ e ∈ t.perTenant, ∀ q ∈ e.2.parts, q.counter ≠ p.counter) (tenant : String) :
    TickExact w (t.add tenant p) := by
  -- The account of the tenant is one of the tick's, or there is none yet.
  have hacc : (∀ q ∈ (t.acc tenant).parts, Waiting w t q ∧ q.counter ≠ p.counter) ∧
      (t.acc tenant).seen = (t.acc tenant).parts.flatMap Part.seen ∧
      ((t.acc tenant).parts.map Part.counter).Nodup ∧
      ∀ e ∈ t.perTenant, e.1 ≠ tenant → ∀ q ∈ (t.acc tenant).parts, ∀ q' ∈ e.2.parts,
        q.counter ≠ q'.counter := by
    obtain ⟨e, he, rfl, hacc⟩ | hacc := acc_cases t tenant
    · rw [hacc]
      exact ⟨fun q hq ↦ ⟨h.waiting e he q hq, hnew e he q hq⟩, h.seen e he, h.nodup e he,
        fun e' he' hne ↦ h.apart e he e' he' (Ne.symm hne)⟩
    · rw [hacc]
      exact ⟨by simp [Acc.empty], rfl, nodup_nil, by simp [Acc.empty]⟩
  obtain ⟨hwaiting, hseen, hnodup, hapart⟩ := hacc
  have hmem : ∀ e ∈ (t.add tenant p).perTenant,
      e = (tenant, (t.acc tenant).add p) ∨ (e ∈ t.perTenant ∧ e.1 ≠ tenant) := by
    intro e he
    rcases mem_cons.mp he with rfl | he
    · exact .inl rfl
    · exact .inr (by simpa using mem_filter.mp he)
  have hparts : ∀ q ∈ ((t.acc tenant).add p).parts, q ∈ (t.acc tenant).parts ∨ q = p := by
    intro q hq
    rcases mem_append.mp hq with hq | hq
    · exact .inl hq
    · exact .inr (mem_singleton.mp hq)
  have hnewApart : ∀ e ∈ t.perTenant, e.1 ≠ tenant → ∀ q ∈ ((t.acc tenant).add p).parts,
      ∀ q' ∈ e.2.parts, q.counter ≠ q'.counter := by
    intro e he hne q hq q' hq'
    rcases hparts q hq with hq | rfl
    · exact hapart e he hne q hq q' hq'
    · exact (hnew e he q' hq').symm
  refine ⟨fun e he q hq ↦ ?_, fun e he ↦ ?_, fun e he ↦ ?_, fun e he e' he' hne ↦ ?_⟩
  · have hq : Waiting w t q := by
      obtain rfl | ⟨he, _⟩ := hmem e he
      · rcases hparts q hq with hq | rfl
        · exact (hwaiting q hq).1
        · exact hp
      · exact h.waiting e he q hq
    exact ⟨hq.scanned, hq.met, hq.ahead, hq.le, hq.seen⟩
  · obtain rfl | ⟨he, _⟩ := hmem e he
    · show (t.acc tenant).seen ++ p.seen = ((t.acc tenant).parts ++ [p]).flatMap Part.seen
      rw [flatMap_append, hseen]
      simp
    · exact h.seen e he
  · obtain rfl | ⟨he, _⟩ := hmem e he
    · show (((t.acc tenant).parts ++ [p]).map Part.counter).Nodup
      rw [map_append, nodup_append]
      refine ⟨hnodup, by simp, fun c hc d hd ↦ ?_⟩
      obtain ⟨q, hq, rfl⟩ := mem_map.mp hc
      rw [map_singleton, mem_singleton] at hd
      rw [hd]
      exact (hwaiting q hq).2
    · exact h.nodup e he
  · obtain rfl | ⟨he, hetenant⟩ := hmem e he
    · obtain rfl | ⟨he', hetenant'⟩ := hmem e' he'
      · exact absurd rfl hne
      · exact hnewApart e' he' hetenant'
    · obtain rfl | ⟨he', _⟩ := hmem e' he'
      · intro q hq q' hq'
        exact (hnewApart e he hetenant q' hq' q hq).symm
      · exact h.apart e he e' he' hne

/-- Nothing but the tick changes. -/
theorem Exact.setTick (h : w.Exact) (ht : TickExact w t) : { w with tick := some t }.Exact := by
  refine ⟨h.grown, h.unmet, h.unbilled, h.met, h.read, fun t' ht' ↦ ?_⟩
  cases ht'
  refine ⟨fun e he p hp ↦ ?_, ht.seen, ht.nodup, ht.apart⟩
  obtain ⟨hs, hm, ha, hle, hseen⟩ := ht.waiting e he p hp
  exact ⟨hs, hm, ha, hle, hseen⟩

/-- A counter that has only grown bills what it is ahead of its marker. -/
theorem Exact.newBytes_eq (h : w.Exact) {last : Int} (hlast : w.mark c = some last) :
    newBytes (sumByteFields (w.counters c)) last = sumByteFields (w.counters c) - last := by
  rw [newBytes]
  rw [mark_eq] at hlast
  split at hlast
  · cases hlast
    split <;> omega
  · rename_i hm
    cases hlast
    have := h.grown c _ hm
    split <;> omega
  · cases hlast

theorem collect_eq_nothing {fields : Hash} (h : collect ⟨w.markers, []⟩ c fields = .nothing) :
    ∃ last, w.mark c = some last := by
  rw [mark, Markers.last]
  rw [collect] at h
  cases hread : Markers.read ⟨w.markers, []⟩ (.seen c) with
  | failed =>
    rw [Markers.read, if_neg not_mem_nil] at hread
    split at hread <;> cases hread
  | missing => exact ⟨0, rfl⟩
  | value v =>
    cases v with
    | count last => exact ⟨last, rfl⟩
    | text raw =>
      rw [hread] at h
      cases h

theorem collect_restart_mark {fields : Hash} {n : Int}
    (h : collect ⟨w.markers, []⟩ c fields = .restart n) : w.mark c = none := by
  rw [mark, Markers.last]
  rw [collect] at h
  split at h
  · cases h
  · simp only [] at h
    split at h <;> cases h
  · simp only [] at h
    split at h <;> cases h
  · rename_i hread
    rw [hread]

/-- A counter whose marker is not a number starts over. -/
theorem Exact.restart (h : w.Exact) (hmet : w.met c = none) : { w with
      markers := update w.markers (.seen c) (some (.count (sumByteFields (w.counters c)))) }.Exact := by
  have hmark : ∀ d, d ≠ c → { w with
      markers := update w.markers (.seen c) (some (.count (sumByteFields (w.counters c)))) }.mark d =
      w.mark d := by
    intro d hd
    rw [mark_eq, mark_eq]
    have : Marker.seen d ≠ .seen c := by simpa using hd
    simp only [update_of_ne this]
  have hne : ∀ d b, w.met d = some b → d ≠ c := by
    rintro d b hb rfl
    rw [hmet] at hb
    cases hb
  refine ⟨fun d n hn ↦ ?_, h.unmet, h.unbilled, fun d b hb ↦ ?_, h.read, fun t ht ↦ ?_⟩
  · by_cases hd : d = c
    · subst hd
      have hn : update w.markers (.seen d) _ (.seen d) = some (.count n) := hn
      rw [update_self] at hn
      cases hn
      exact Int.le_refl _
    · have hd' : Marker.seen d ≠ .seen c := by simpa using hd
      have hn : update w.markers (.seen c) _ (.seen d) = some (.count n) := hn
      rw [update_of_ne hd'] at hn
      exact h.grown d n hn
  · rw [hmark d (hne d b hb)]
    exact h.met d b hb
  · have htick := h.tick t ht
    refine ⟨fun e he p hp ↦ ?_, htick.seen, htick.nodup, htick.apart⟩
    obtain ⟨hs, ⟨b, hb⟩, ha, hle, hseen⟩ := htick.waiting e he p hp
    exact ⟨hs, ⟨b, hb⟩, by rwa [hmark _ (hne _ b hb)], hle, hseen⟩

theorem Exact.scan (h : w.Exact) (ht : w.tick = some t) (hnew : c ∉ t.scanned) :
    (w.scan t c []).Exact := by
  have hadvance : ∀ {v : World}, v.Exact → v.tick = some t →
      { v with tick := some { t with scanned := c :: t.scanned } }.Exact := by
    intro v hv hvt
    refine hv.congr rfl rfl rfl rfl (fun _ ↦ Int.le_refl _) fun t' ht' ↦ .inr ⟨t, hvt, ?_⟩
    cases ht'
    exact ⟨fun d hd ↦ mem_cons_of_mem _ hd, fun e he ↦ he⟩
  rw [World.scan]
  simp only []
  split
  · exact hadvance h ht
  rename_i tenant _
  cases hcollect : collect ⟨(w.meet c).markers, []⟩ c ((w.meet c).counters c) with
  | nothing => exact hadvance (h.meet (collect_eq_nothing hcollect)) ht
  | restart n =>
    have hn : n = sumByteFields (w.counters c) := collect_eq_restart hcollect
    have hnone : w.mark c = none := collect_restart_mark hcollect
    have hunmet : w.met c = none := by
      cases hmet : w.met c with
      | none => rfl
      | some b =>
        have := h.met c b hmet
        rw [hnone] at this
        cases this
    subst hn
    have hbase : w.baseline c = sumByteFields (w.counters c) := baseline_of_mark_none hnone
    have hrestart := (h.restart hunmet).meet (c := c) ⟨sumByteFields (w.counters c), by simp [mark_eq]⟩
    have heq : ∀ v : World, v = { w with
        markers := update w.markers (.seen c) (some (.count (sumByteFields (w.counters c)))) } →
        v.baseline c = w.baseline c := by
      rintro v rfl
      rw [hbase]
      simp [baseline]
    have hadv := hadvance hrestart ht
    rw [World.meet, heq _ rfl] at hadv
    exact hadv
  | part p =>
    obtain ⟨last, hlast, hpos, rfl⟩ := collect_eq_part hcollect
    have hexact := h.meet ⟨last, hlast⟩
    have hdelta := h.newBytes_eq hlast
    refine (hadvance hexact ht).setTick (((hadvance hexact ht).tick _ rfl).add ?_
      (fun e he q hq hqc ↦ ?_) tenant)
    · refine ⟨mem_cons_self, ⟨_, update_self ..⟩, ⟨last, hlast, hdelta⟩, Int.le_refl _,
        fun d n ↦ ?_⟩
      exact seen_mem_collectRegions
    · have hqc : q.counter = c := hqc
      exact hnew (hqc ▸ ((h.tick t ht).waiting e he q hq).scanned)

/-! ### Rows are written -/

section WriteOk

variable {t : Tick} {e : String × Acc} {c : Counter}

theorem billed_write_ok (w : World) (t : Tick) (e : String × Acc) (c : Counter) :
    (w.write t e.1 e.2 .ok).billed c = w.billed c + billedIn c e.2.parts := by
  show billedIn c ((w.bills ++ e.2.parts.map (e.1, ·)).map Prod.snd) = _
  rw [List.map_append, billedIn_append, List.map_map]
  congr 2
  exact List.map_id _

/-- A counter that is billed: its marker is where it was read. -/
theorem TickExact.write_ok_of_mem (h : TickExact w t) (he : e ∈ t.perTenant)
    (hp : p ∈ e.2.parts) :
    (w.write t e.1 e.2 .ok).markers (.seen p.counter) = some (.count p.current) ∧
      (w.write t e.1 e.2 .ok).read p.counter = some p.current := by
  have huniq : ∀ q ∈ e.2.parts, q.counter = p.counter → q = p := fun q hq hqp ↦
    inj_on_of_nodup_map (h.nodup e he) hq hp hqp
  constructor
  · refine assign_of_mem (mem_map.mpr ⟨(.seen p.counter, p.current), ?_, rfl⟩) fun v hv ↦ ?_
    · exact (h.mem_seen he).mpr ⟨p, hp, rfl, rfl⟩
    obtain ⟨⟨m, n⟩, hmem, heq⟩ := mem_map.mp hv
    obtain ⟨rfl, rfl⟩ := heq
    obtain ⟨q, hq, hqc, rfl⟩ := (h.mem_seen he).mp hmem
    rw [huniq q hq hqc.symm]
  · refine assign_of_mem (mem_map.mpr ⟨p, hp, rfl⟩) fun v hv ↦ ?_
    obtain ⟨q, hq, heq⟩ := mem_map.mp hv
    rw [Prod.mk.injEq] at heq
    rw [← heq.2, huniq q hq heq.1]

/-- And any other: nothing moves. -/
theorem TickExact.write_ok_of_not_mem (h : TickExact w t) (he : e ∈ t.perTenant)
    (hc : ∀ p ∈ e.2.parts, p.counter ≠ c) :
    (w.write t e.1 e.2 .ok).markers (.seen c) = w.markers (.seen c) ∧
      (w.write t e.1 e.2 .ok).read c = w.read c ∧
      (w.write t e.1 e.2 .ok).mark c = w.mark c ∧
      (w.write t e.1 e.2 .ok).billed c = w.billed c := by
  have hmarkers : (w.write t e.1 e.2 .ok).markers (.seen c) = w.markers (.seen c) := by
    refine assign_of_not_mem fun v hv ↦ ?_
    obtain ⟨⟨m, n⟩, hmem, heq⟩ := mem_map.mp hv
    obtain ⟨rfl, rfl⟩ := heq
    obtain ⟨q, hq, hqc, -⟩ := (h.mem_seen he).mp hmem
    exact hc q hq hqc.symm
  refine ⟨hmarkers, assign_of_not_mem fun v hv ↦ ?_, ?_, ?_⟩
  · obtain ⟨q, hq, heq⟩ := mem_map.mp hv
    rw [Prod.mk.injEq] at heq
    exact hc q hq heq.1
  · rw [mark_eq, mark_eq, hmarkers]
  · rw [billed_write_ok, billedIn_of_not_mem hc, Int.add_zero]

/-- A billed counter has been billed up to where it was read. -/
theorem Exact.current_eq (h : w.Exact) (ht : w.tick = some t) (he : e ∈ t.perTenant)
    (hp : p ∈ e.2.parts) {b : Int} (hb : w.met p.counter = some b) :
    p.current = b + (w.write t e.1 e.2 .ok).billed p.counter := by
  have htick := h.tick t ht
  obtain ⟨last, hlast, hdelta⟩ := (htick.waiting e he p hp).ahead
  have hmet := h.met p.counter b hb
  rw [hlast, some_inj] at hmet
  rw [billed_write_ok, billedIn_of_mem (htick.nodup e he) hp]
  omega

/-- What waits with the other tenants goes on waiting. -/
theorem TickExact.write_ok (h : TickExact w t) (he : e ∈ t.perTenant) :
    TickExact (w.write t e.1 e.2 .ok)
      { t with perTenant := t.perTenant.filter fun e' ↦ e'.1 ≠ e.1 } := by
  have hsub : ∀ e' ∈ t.perTenant.filter (fun e' ↦ e'.1 ≠ e.1), e' ∈ t.perTenant ∧
      e'.1 ≠ e.1 := by
    intro e' he'
    simpa using mem_filter.mp he'
  refine ⟨fun e' he' q hq ↦ ?_, fun e' he' ↦ h.seen e' (hsub e' he').1,
    fun e' he' ↦ h.nodup e' (hsub e' he').1,
    fun e' he' e'' he'' ↦ h.apart e' (hsub e' he').1 e'' (hsub e'' he'').1⟩
  obtain ⟨he', hne⟩ := hsub e' he'
  obtain ⟨hs, hm, ha, hle, hseen⟩ := h.waiting e' he' q hq
  refine ⟨hs, hm, ?_, hle, hseen⟩
  have hapart : ∀ p ∈ e.2.parts, p.counter ≠ q.counter :=
    fun p hp ↦ h.apart e he e' he' (Ne.symm hne) p hp q hq
  rw [(h.write_ok_of_not_mem he hapart).2.2.1]
  exact ha

/-- The rows of a tenant are written, and its markers move. -/
theorem Exact.write_ok (h : w.Exact) (ht : w.tick = some t) (he : e ∈ t.perTenant) :
    (w.write t e.1 e.2 .ok).Exact := by
  have htick := h.tick t ht
  -- The counters that are billed, and the others.
  have hcases : ∀ c, (∃ p ∈ e.2.parts, p.counter = c) ∨ ∀ p ∈ e.2.parts, p.counter ≠ c := by
    intro c
    by_cases hc : ∃ p ∈ e.2.parts, p.counter = c
    · exact .inl hc
    · exact .inr fun p hp hpc ↦ hc ⟨p, hp, hpc⟩
  refine ⟨fun c n hn ↦ ?_, fun c hc ↦ ?_, fun c hc ↦ ?_, fun c b hb ↦ ?_, fun c v b hv hb ↦ ?_,
    fun t' ht' ↦ some_inj.mp ht' ▸ htick.write_ok he⟩
  · obtain ⟨p, hp, rfl⟩ | hother := hcases c
    · rw [(htick.write_ok_of_mem he hp).1] at hn
      cases hn
      exact (htick.waiting e he p hp).le
    · rw [(htick.write_ok_of_not_mem he hother).1] at hn
      exact h.grown c n hn
  · obtain ⟨p, hp, rfl⟩ | hother := hcases c
    · obtain ⟨b, hb⟩ := (htick.waiting e he p hp).met
      have hc : w.met p.counter = none := hc
      rw [hb] at hc
      cases hc
    · rw [(htick.write_ok_of_not_mem he hother).2.1]
      exact h.unmet c hc
  · obtain ⟨p, hp, rfl⟩ | hother := hcases c
    · rw [(htick.write_ok_of_mem he hp).2] at hc
      cases hc
    · obtain ⟨-, hread, -, hbilled⟩ := htick.write_ok_of_not_mem he hother
      rw [hread] at hc
      rw [hbilled]
      exact h.unbilled c hc
  · obtain ⟨p, hp, rfl⟩ | hother := hcases c
    · rw [mark_eq, (htick.write_ok_of_mem he hp).1]
      exact congrArg some (h.current_eq ht he hp hb)
    · obtain ⟨-, -, hmark, hbilled⟩ := htick.write_ok_of_not_mem he hother
      rw [hmark, hbilled]
      exact h.met c b hb
  · obtain ⟨p, hp, rfl⟩ | hother := hcases c
    · rw [(htick.write_ok_of_mem he hp).2, some_inj] at hv
      rw [← hv]
      exact h.current_eq ht he hp hb
    · obtain ⟨-, hread, -, hbilled⟩ := htick.write_ok_of_not_mem he hother
      rw [hread] at hv
      rw [hbilled]
      exact h.read c v b hv hb

end WriteOk

/-- The rows that are written are those of a tenant of the running tick. -/
theorem write_of_step {tenant : String} {o : Outcome} (h : w.step (.write tenant o) = some w') :
    ∃ t e, w.tick = some t ∧ e ∈ t.perTenant ∧ e.1 = tenant ∧ w' = w.write t e.1 e.2 o := by
  obtain ⟨t, ht, h⟩ := bind_eq_some_iff.mp h
  split at h
  · cases h
  obtain ⟨e, hfind, rfl⟩ := map_eq_some_iff.mp h
  obtain rfl : e.1 = tenant := by simpa using find?_some hfind
  exact ⟨t, e, ht, mem_of_find?_eq_some hfind, rfl, rfl⟩

/-- What holds of an empty account, and stays when a part is added that a scan has collected, holds of every
account of the running tick. -/
theorem accs_of_step {P : Acc → Prop} (hempty : P .empty)
    (hadd : ∀ acc ms c fields p, P acc → collect ms c fields = .part p → P (acc.add p))
    (h : ∀ t, w.tick = some t → ∀ e ∈ t.perTenant, P e.2) {a : Label} (hstep : w.step a = some w') :
    ∀ t, w'.tick = some t → ∀ e ∈ t.perTenant, P e.2 := by
  intro t' ht' e he
  cases a with
  | hincrby | expire =>
    cases hstep
    exact h t' ht' e he
  | begin owners =>
    obtain ⟨-, ⟨⟩⟩ := ite_none_right_eq_some.mp hstep
    cases ht'
    cases he
  | scan c unread =>
    obtain ⟨t, ht, hstep⟩ := bind_eq_some_iff.mp hstep
    obtain ⟨-, ⟨⟩⟩ := ite_none_right_eq_some.mp hstep
    have hold := h t ht
    revert ht'
    rw [World.scan]
    dsimp only
    split
    · rintro ⟨⟩
      exact hold e he
    rename_i tenant _
    split <;> rintro ⟨⟩
    · exact hold e he
    · exact hold e he
    · rename_i p hp
      rcases mem_cons.mp he with rfl | he
      · refine hadd _ _ _ _ p ?_ hp
        rcases acc_cases { t with scanned := c :: t.scanned } tenant with ⟨e, he, -, hacc⟩ | hacc <;>
          rw [hacc]
        · exact hold e he
        · exact hempty
      · exact hold e (mem_of_mem_filter he)
  | collected =>
    obtain ⟨t, ht, hstep⟩ := bind_eq_some_iff.mp hstep
    obtain ⟨-, ⟨⟩⟩ := ite_none_right_eq_some.mp hstep
    cases ht'
    exact h t ht e he
  | write tenant o =>
    obtain ⟨t, e', ht, -, -, rfl⟩ := write_of_step hstep
    have htick : (w.write t e'.1 e'.2 o).tick =
        some { t with perTenant := t.perTenant.filter fun e ↦ e.1 ≠ e'.1 } := by cases o <;> rfl
    cases htick.symm.trans ht'
    exact h t ht e (mem_of_mem_filter he)
  | finish =>
    obtain ⟨t, -, rfl⟩ := map_eq_some_iff.mp hstep
    cases ht'

/-- A step leaves the rows and the bills, or writes the account of a tenant. -/
theorem bills_of_step {a : Label} (hstep : w.step a = some w') :
    w'.usage = w.usage ∧ w'.bills = w.bills ∨ ∃ t e, w.tick = some t ∧ e ∈ t.perTenant ∧
      w'.usage = update w.usage e.1 ((w.usage e.1).addTrafficTick e.2.edge e.2.relay e.2.cells) ∧
      w'.bills = w.bills ++ e.2.parts.map (e.1, ·) := by
  cases a with
  | hincrby | expire =>
    cases hstep
    exact .inl ⟨rfl, rfl⟩
  | begin owners =>
    obtain ⟨-, ⟨⟩⟩ := ite_none_right_eq_some.mp hstep
    exact .inl ⟨rfl, rfl⟩
  | scan c unread =>
    obtain ⟨t, -, hstep⟩ := bind_eq_some_iff.mp hstep
    obtain ⟨-, ⟨⟩⟩ := ite_none_right_eq_some.mp hstep
    rw [World.scan]
    dsimp only
    split
    · exact .inl ⟨rfl, rfl⟩
    · split <;> exact .inl ⟨rfl, rfl⟩
  | collected =>
    obtain ⟨t, -, hstep⟩ := bind_eq_some_iff.mp hstep
    obtain ⟨-, ⟨⟩⟩ := ite_none_right_eq_some.mp hstep
    exact .inl ⟨rfl, rfl⟩
  | write tenant o =>
    obtain ⟨t, e, ht, he, -, rfl⟩ := write_of_step hstep
    cases o with
    | failed => exact .inl ⟨rfl, rfl⟩
    | ok | lost => exact .inr ⟨t, e, ht, he, rfl, rfl⟩
  | finish =>
    obtain ⟨t, -, rfl⟩ := map_eq_some_iff.mp hstep
    exact .inl ⟨rfl, rfl⟩

theorem Exact.step (h : w.Exact) {a : Label} (hok : w.Once a) (hstep : w.step a = some w') : w'.Exact := by
  have hsame : ∀ t', w.tick = some t' → t'.perTenant = [] ∨ ∃ t, w.tick = some t ∧
      (∀ c ∈ t.scanned, c ∈ t'.scanned) ∧ ∀ e ∈ t'.perTenant, e ∈ t.perTenant :=
    fun t' ht' ↦ .inr ⟨t', ht', fun _ hc ↦ hc, fun _ he ↦ he⟩
  cases a with
  | hincrby c f n =>
    cases hstep
    refine h.congr rfl rfl rfl rfl (fun d ↦ ?_) hsame
    by_cases hd : d = c
    · subst hd
      show _ ≤ sumByteFields (update w.counters d _ d)
      rw [update_self]
      exact sumByteFields_hincrby_le _ _ _
    · exact Int.le_of_eq (congrArg sumByteFields (update_of_ne hd _ _).symm)
  | expire c => exact absurd hok id
  | begin owners =>
    rw [World.step] at hstep
    split at hstep <;> cases hstep
    refine h.congr rfl rfl rfl rfl (fun _ ↦ Int.le_refl _) fun t' ht' ↦ .inl ?_
    cases ht'
    rfl
  | scan c unread =>
    obtain ⟨t, ht, hstep⟩ := bind_eq_some_iff.mp hstep
    obtain ⟨rfl, hnew⟩ := hok
    split at hstep <;> cases hstep
    exact h.scan ht (hnew t ht)
  | collected =>
    obtain ⟨t, ht, hstep⟩ := bind_eq_some_iff.mp hstep
    split at hstep <;> cases hstep
    refine h.congr rfl rfl rfl rfl (fun _ ↦ Int.le_refl _) fun t' ht' ↦ .inr ⟨t, ht, ?_⟩
    cases ht'
    exact ⟨fun _ hc ↦ hc, fun _ he ↦ he⟩
  | write tenant o =>
    obtain ⟨t, e, ht, he, rfl, rfl⟩ := write_of_step hstep
    cases o with
    | ok => exact h.write_ok ht he
    | lost => exact absurd rfl hok
    | failed =>
      refine h.congr rfl rfl rfl rfl (fun _ ↦ Int.le_refl _) fun t' ht' ↦ .inr ⟨t, ht, ?_⟩
      cases ht'
      exact ⟨fun _ hc ↦ hc, fun _ he ↦ (mem_filter.mp he).1⟩
  | finish =>
    obtain ⟨t, ht, rfl⟩ := map_eq_some_iff.mp hstep
    refine h.congr rfl rfl rfl rfl (fun _ ↦ Int.le_refl _) fun t' ht' ↦ ?_
    cases ht'

end World

/-! ## The rows of usage -/

/-- The bytes of the parts of a kind. -/
def bookedIn (kind : Kind) (parts : List Part) : Int :=
  ((parts.filter fun p ↦ p.counter.kind = kind).map Part.delta).sum

/-- The bytes of the parts by region. -/
def regionsIn (parts : List Part) : Int := (parts.map fun p ↦ p.regions.total).sum

/-- The rows have what the parts add up to, beyond what they had. -/
def Usage.Books (u₀ u : Usage) (parts : List Part) : Prop :=
  u.edge = u₀.edge + bookedIn .edge parts ∧ u.relay = u₀.relay + bookedIn .relay parts ∧
    u.bytes.total = u₀.bytes.total + regionsIn parts

/-- The sums of a tenant's tick are those of its parts. -/
structure Acc.Sums (a : Acc) : Prop where
  edge : a.edge = bookedIn .edge a.parts
  relay : a.relay = bookedIn .relay a.parts
  regions : a.byRegion.total = regionsIn a.parts
  nonneg : ∀ x ∈ a.byRegion, 0 ≤ x.2

theorem addCells_spec (t : Tally Cell) (c : Counter) {regions : Tally String}
    (hregions : ∀ x ∈ regions, 0 ≤ x.2) (ht : ∀ x ∈ t, 0 ≤ x.2) :
    (addCells t c regions).total = t.total + regions.total ∧ ∀ x ∈ addCells t c regions, 0 ≤ x.2 := by
  rw [addCells]
  induction regions generalizing t with
  | nil => exact ⟨(Int.add_zero _).symm, ht⟩
  | cons x regions ih =>
    rw [forall_mem_cons] at hregions
    obtain ⟨htotal, hnonneg⟩ := ih (t.add ⟨x.1, c.kind, trafficProductOf c.subject⟩ x.2) hregions.2
      (Tally.nonneg_add ht hregions.1 _)
    refine ⟨?_, hnonneg⟩
    rw [foldl_cons, htotal, Tally.total_add, Tally.total_cons, Int.add_assoc]

theorem Acc.Sums.add {a : Acc} (h : a.Sums) {p : Part} (hp : ∀ x ∈ p.regions, 0 ≤ x.2) :
    (a.add p).Sums := by
  obtain ⟨htotal, hnonneg⟩ := addCells_spec a.byRegion p.counter hp h.nonneg
  refine ⟨?_, ?_, ?_, hnonneg⟩
  · cases hkind : p.counter.kind <;> simp [Acc.add, bookedIn, hkind, h.edge]
  · cases hkind : p.counter.kind <;> simp [Acc.add, bookedIn, hkind, h.relay]
  · rw [regionsIn, Acc.add, map_append, sum_append, htotal, h.regions, regionsIn]
    simp

/-- **What `AddTrafficTick` books.** -/
theorem addTrafficTick_spec (u : Usage) (edge relay : Int) {cells : List TickCell}
    (hcells : ∀ c ∈ cells, 0 ≤ c.bytes) :
    (u.addTrafficTick edge relay cells).edge = u.edge + edge ∧
      (u.addTrafficTick edge relay cells).relay = u.relay + relay ∧
      (u.addTrafficTick edge relay cells).bytes.total = u.bytes.total + (cells.map TickCell.bytes).sum := by
  rw [Usage.addTrafficTick]
  generalize hu : ({ u with edge := u.edge + edge, relay := u.relay + relay } : Usage) = v
  have hv : v.edge = u.edge + edge ∧ v.relay = u.relay + relay ∧ v.bytes = u.bytes := by
    rw [← hu]
    exact ⟨rfl, rfl, rfl⟩
  rw [← hv.1, ← hv.2.1, ← hv.2.2]
  clear hv hu
  induction cells generalizing v with
  | nil => exact ⟨rfl, rfl, (Int.add_zero _).symm⟩
  | cons c cells ih =>
    rw [forall_mem_cons] at hcells
    rw [foldl_cons]
    obtain ⟨hedge, hrelay, hbytes⟩ := ih hcells.2 _
    refine ⟨hedge, hrelay, hbytes.trans ?_⟩
    rw [map_cons, sum_cons]
    dsimp only
    split
    · rw [Tally.total_add]
      omega
    · omega

theorem Acc.Sums.cells {a : Acc} (h : a.Sums) :
    (∀ c ∈ a.cells, 0 ≤ c.bytes) ∧ (a.cells.map TickCell.bytes).sum = regionsIn a.parts := by
  have hsum : ∀ t : Tally Cell, (t.map Prod.snd).sum = t.total := by
    intro t
    induction t with
    | nil => rfl
    | cons x t ih => rw [map_cons, sum_cons, ih, Tally.total_cons]
  constructor
  · rw [Acc.cells, forall_mem_append]
    simp only [List.forall_mem_map]
    exact ⟨h.nonneg, fun _ _ ↦ Int.le_refl 0⟩
  · rw [Acc.cells, map_append, sum_append, List.map_map, List.map_map, ← h.regions, ← hsum]
    have hzero : ∀ cells : List Cell, (cells.map fun _ ↦ (0 : Int)).sum = 0 := by simp
    exact (congrArg _ (hzero _)).trans (Int.add_zero _)

theorem Usage.Books.tick {u₀ u : Usage} {parts : List Part} (h : u₀.Books u parts) {a : Acc}
    (ha : a.Sums) : u₀.Books (u.addTrafficTick a.edge a.relay a.cells) (parts ++ a.parts) := by
  obtain ⟨hedge, hrelay, hbytes⟩ := addTrafficTick_spec u a.edge a.relay ha.cells.1
  have happend : ∀ kind, bookedIn kind (parts ++ a.parts) = bookedIn kind parts + bookedIn kind a.parts :=
    fun kind ↦ by rw [bookedIn, filter_append, map_append, sum_append, bookedIn, bookedIn]
  refine ⟨?_, ?_, ?_⟩
  · rw [hedge, h.1, ha.edge, happend, Int.add_assoc]
  · rw [hrelay, h.2.1, ha.relay, happend, Int.add_assoc]
  · rw [hbytes, h.2.2, ha.cells.2, regionsIn, regionsIn, regionsIn, map_append, sum_append, Int.add_assoc]

namespace World

variable {w₀ w w' : World}

def billsOf (w : World) (tenant : String) : List Part :=
  (w.bills.filter fun e ↦ e.1 = tenant).map Prod.snd

/-- The rows of every tenant have what was billed to it since, and the sums of the running tick are right. -/
structure Booked (w₀ w : World) : Prop where
  usage : ∀ tenant, (w₀.usage tenant).Books (w.usage tenant) (w.billsOf tenant)
  tick : ∀ t, w.tick = some t → ∀ e ∈ t.perTenant, e.2.Sums

theorem Booked.step (h : Booked w₀ w) {a : Label} (hstep : w.step a = some w') : Booked w₀ w' where
  usage tenant := by
    rcases bills_of_step hstep with ⟨husage, hbills⟩ | ⟨t, e, ht, he, husage, hbills⟩
    · rw [husage, billsOf, hbills]
      exact h.usage tenant
    rw [husage, billsOf, hbills, filter_append, map_append]
    by_cases htenant : tenant = e.1
    · subst htenant
      have hall : ((e.2.parts.map (e.1, ·)).filter fun b ↦ b.1 = e.1).map Prod.snd = e.2.parts := by
        rw [filter_eq_self.mpr (by simp), List.map_map]
        exact List.map_id _
      rw [update_self, hall]
      exact (h.usage e.1).tick (h.tick t ht e he)
    · have hnone : ((e.2.parts.map (e.1, ·)).filter fun b ↦ b.1 = tenant) = [] :=
        filter_eq_nil_iff.mpr (by simpa using fun _ _ ↦ Ne.symm htenant)
      rw [update_of_ne htenant, hnone, List.map_nil, append_nil]
      exact h.usage tenant
  tick := by
    refine accs_of_step ⟨rfl, rfl, rfl, nofun⟩ (fun acc ms c fields p hacc hp ↦ ?_) h.tick hstep
    obtain ⟨last, -, -, rfl⟩ := collect_eq_part hp
    exact hacc.add fun x hx ↦ Int.le_of_lt (of_decide_eq_true (mem_filter.mp hx).2)

theorem Fresh.booked (h : w.Fresh) : Booked w w where
  usage tenant := by
    have hnil : w.billsOf tenant = [] := by rw [billsOf, h.bills]; rfl
    rw [hnil]
    exact ⟨(Int.add_zero _).symm, (Int.add_zero _).symm, (Int.add_zero _).symm⟩
  tick t ht := by
    rw [h.tick] at ht
    cases ht

end World

namespace World

/-- A counter that the examples below are about. -/
def server : Counter := ⟨.edge, ⟨false, "s"⟩⟩

/-- What a run says about it: what has been billed, what was read when it last was, and where it was met. -/
def account (w : World) : Int × Option Int × Option Int := (w.billed server, w.read server, w.met server)

end World

end Dylaris.Traffic
