import Dylaris.Traffic.Billed

/-!
# Voice and Bedrock stay inside their region

The voice and Bedrock bytes of an edge counter are also among the bytes of their region.  Each is taken
against a marker of its own, with its own rule for a counter that has been reset, so that what is new of
them need not be part of what is new in the region.  `collectSubset` therefore caps it: voice at what the
region is billed, and Bedrock at what voice has left of that.

`subsets_inside` holds of everything that is billed, whatever the counters and the markers hold.
-/

set_option autoImplicit false

namespace Dylaris.Traffic

open List Option Machine

/-- Voice and Bedrock together have no more than their region. -/
def Part.Inside (p : Part) : Prop :=
  ∀ region, p.voice.get region + p.bedrock.get region ≤ p.regions.get region

variable {ms : Markers} {c : Counter}

/-- A subset is capped at what its region may have. -/
theorem get_collectEdgeSubset_le (s : Subset) (totals : Tally String) {billed : Tally String}
    {region : String} (hbilled : 0 ≤ billed.get region) :
    (collectEdgeSubset ms s c totals billed).1.get region ≤ billed.get region := by
  rw [collectEdgeSubset]
  split
  · refine Tally.get_le hbilled fun m hm ↦ ?_
    obtain ⟨⟨region', current, delta⟩, hread, hm⟩ := mem_map.mp (mem_filter.mp hm).1
    cases hm
    obtain ⟨⟨region', current'⟩, -, hread⟩ := mem_filterMap.mp hread
    obtain ⟨⟨region'', cap⟩, hcap, hread⟩ := bind_eq_some_iff.mp hread
    obtain ⟨last, -, hread⟩ := map_eq_some_iff.mp hread
    cases hread
    rw [Tally.get, hcap]
    exact Int.min_le_right ..
  · exact hbilled

theorem nonneg_regionsBilled {fields : Hash} {had : Bool} :
    ∀ x ∈ regionsBilled ms c fields had, 0 ≤ x.2 := by
  intro x hx
  obtain ⟨⟨region, n⟩, _, hx⟩ := mem_filterMap.mp hx
  obtain ⟨d, hd, rfl⟩ := map_eq_some_iff.mp hx
  obtain ⟨last, _, rfl⟩ := map_eq_some_iff.mp hd
  show 0 ≤ ite _ _ _
  split
  · exact Int.le_refl 0
  · exact Int.le_max_left _ _

/-- **A part stays inside its regions.** -/
theorem inside_collectRegions (ms : Markers) (c : Counter) (fields : Hash) (had : Bool)
    (current delta : Int) : (collectRegions ms c fields had current delta).Inside := by
  intro region
  let billed := regionsBilled ms c fields had
  let voice := collectEdgeSubset ms .voice c (voiceRegionBytes fields) billed
  let room : Tally String := billed.map fun p ↦ (p.1, max 0 (p.2 - voice.1.get p.1))
  have hbilled : 0 ≤ billed.get region := Tally.get_nonneg nonneg_regionsBilled region
  have hvoice : voice.1.get region ≤ billed.get region := get_collectEdgeSubset_le .voice _ hbilled
  have hroom : room.get region ≤ max 0 (billed.get region - voice.1.get region) :=
    Tally.get_map_sub_le billed voice.1.get region
  have hnonneg : 0 ≤ room.get region := by
    refine Tally.get_nonneg (fun x hx ↦ ?_) region
    obtain ⟨p, -, rfl⟩ := mem_map.mp hx
    exact Int.le_max_left ..
  have hbedrock : (collectEdgeSubset ms .bedrock c (bedrockRegionBytes fields) room).1.get region ≤
      room.get region := get_collectEdgeSubset_le .bedrock _ hnonneg
  have hregions : billed.get region ≤ Tally.get (billed.filter fun p ↦ 0 < p.2) region :=
    Tally.get_le_get_filter billed region
  show voice.1.get region + _ ≤ _
  calc voice.1.get region + _
      ≤ voice.1.get region + max 0 (billed.get region - voice.1.get region) :=
        Int.add_le_add_left (Int.le_trans hbedrock hroom) _
    _ = billed.get region := by omega
    _ ≤ _ := hregions

namespace World

variable {w w' : World}

/-- What has been billed, and what the running tick is going to bill. -/
structure Inside (w : World) : Prop where
  bills : ∀ e ∈ w.bills, e.2.Inside
  tick : ∀ t, w.tick = some t → ∀ e ∈ t.perTenant, ∀ p ∈ e.2.parts, p.Inside

theorem Inside.step (h : w.Inside) {a : Label} (hstep : w.step a = some w') : w'.Inside where
  bills b hb := by
    rcases bills_of_step hstep with ⟨-, hbills⟩ | ⟨t, e, ht, he, -, hbills⟩
    · exact h.bills b (hbills ▸ hb)
    rw [hbills] at hb
    rcases mem_append.mp hb with hb | hb
    · exact h.bills b hb
    · obtain ⟨p, hp, rfl⟩ := mem_map.mp hb
      exact h.tick t ht e he p hp
  tick := by
    refine accs_of_step (P := fun acc ↦ ∀ p ∈ acc.parts, p.Inside) nofun
      (fun acc ms c fields p hacc hp q hq ↦ ?_) h.tick hstep
    rcases mem_append.mp hq with hq | hq
    · exact hacc q hq
    · obtain ⟨last, -, -, rfl⟩ := collect_eq_part hp
      exact mem_singleton.mp hq ▸ fun region ↦ inside_collectRegions _ _ _ _ _ _ region

end World

/-- **Sub-metered traffic stays inside its cell.**  Whatever the counters hold, over any number of ticks, in
each part of each tick that has been billed the voice and Bedrock bytes of a region are together no more
than the region's. -/
theorem subsets_inside {w₀ w : World} (hbills : w₀.bills = []) (htick : w₀.tick = none)
    (h : Reach World.step anyStep w₀ w) {tenant : String} {p : Part}
    (hp : (tenant, p) ∈ w.bills) (region : String) :
    p.voice.get region + p.bedrock.get region ≤ p.regions.get region := by
  have h₀ : w₀.Inside := ⟨by simp [hbills], by simp [htick]⟩
  have hw : w.Inside := h.invariant h₀ fun _ _ _ hw _ hstep ↦ hw.step hstep
  exact hw.bills _ hp region

/-- A server's counter is first met with voice in it, and then reset. -/
theorem subsets_inside_reset : ∃ w p, Reach World.step anyStep World.start w ∧
    ("t", p) ∈ w.bills ∧ p.voice.get "us" = 30 ∧
      p.voice.get "us" + p.bedrock.get "us" ≤ p.regions.get "us" := by
  have hrun : (exec World.step anyStep World.start
      [.hincrby World.server ⟨"rx", some "us"⟩ 100, .hincrby World.server ⟨"vrx", some "us"⟩ 30,
        .begin [(⟨false, "s"⟩, "t")], .scan World.server [], .collected, .write "t" .ok, .finish,
        .expire World.server, .hincrby World.server ⟨"rx", some "us"⟩ 20]).map
      (fun w ↦ w.bills.map fun e ↦ (e.1, e.2.voice.get "us")) = some [("t", 30)] := by decide
  obtain ⟨w, hw, hbills⟩ := exists_reach_of_exec hrun
  obtain ⟨⟨tenant, p⟩, hp, he⟩ := mem_map.mp (hbills ▸ mem_singleton_self _)
  obtain ⟨rfl, hvoice⟩ := Prod.mk.inj he
  exact ⟨w, p, hw, hp, hvoice, subsets_inside rfl rfl hw hp "us"⟩

end Dylaris.Traffic
