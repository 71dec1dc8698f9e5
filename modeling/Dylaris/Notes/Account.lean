import Dylaris.Notes.Spans
import Mathlib.Data.List.Chain

/-!
# Every line of the notes is accounted for

A `Document` is what a notes file is meant to be: a preamble and blocks, with each line of the file in its
place — a version heading, the line of a mandatory update, a section heading, the first line of a bullet or
one that continues it.  A document cannot be built wrongly: the headings say what they should, the four
sections are there in order, no section is without a bullet, and a bullet's lines read as an entry or as
the placeholder.

`parse_accounts` is that an accepted file is the lines of a document, each once, in order and in its place,
and that the releases are those of the document.  The one thing the source promises and does not keep is
that a heading is not joined into a bullet: of the indented lines under a bullet, only those that begin
with three hashes and a space are refused, and `  ## 2026.08.27` becomes part of the entry's text,
`not_parse_accounts`.
`headingsAtMargin` leaves such files out; what it says of a continuation line is the parameter `Q` of a
document.

While the file is read, the lines so far are a document and a `Part`, the block under way, and the loop's
variables are a function of the two, `Part.state`.  A line takes a part to the next.
-/

set_option autoImplicit false

namespace Dylaris.Notes

open Text List Option

/-! ## Places -/

/-- Where in the notes a line is: before the first release, behind a heading or an update line, or
behind a bullet and what continues it. -/
inductive Under
  | preamble | heading | bullet
deriving DecidableEq, Repr

/-- Where the line after this one is. -/
def Under.next (u : Under) (raw : Text) : Under :=
  match u with
  | .preamble => if (lit "## ").isPrefixOf (trimSpace raw) then .heading else .preamble
  | .heading => if (lit "- ").isPrefixOf (trimSpace raw) then .bullet else .heading
  | .bullet =>
    if isIndented raw || (lit "- ").isPrefixOf (trimSpace raw) then .bullet else .heading

/-- The lines with their places. -/
def place : Under → List Text → List (Under × Text)
  | _, [] => []
  | u, raw :: rest => (u.next raw, raw) :: place (u.next raw) rest

/-! ## Documents -/

variable {Q : Text → Prop}

/-- A bullet as it is written; `Q` holds of the lines that continue it. -/
structure Draft (Q : Text → Prop) where
  first : Text
  more : List Text
  opens : (lit "- ").isPrefixOf (trimSpace first) = true
  indented : ∀ l ∈ more, isIndented l = true ∧ Q l

def Draft.places (d : Draft Q) : List (Under × Text) := (d.first :: d.more).map (.bullet, ·)

/-- The lines of a bullet, joined. -/
def Draft.text (d : Draft Q) : Text :=
  d.more.foldl (fun t l ↦ t ++ lit " " ++ trimSpace l) ((trimSpace d.first).drop 2)

/-- A bullet, and the entry it is; the placeholder is none. -/
structure Bullet (Q : Text → Prop) extends Draft Q where
  entry : Option Entry
  read : parseEntry toDraft.text = .ok entry

/-- A section: its heading and its bullets. -/
structure Sec (Q : Text → Prop) where
  name : SectionName
  heading : Text
  bullets : List (Bullet Q)
  named : trimSpace heading = lit "### " ++ name.label
  filled : bullets ≠ []

def Sec.places (sec : Sec Q) : List (Under × Text) :=
  (.heading, sec.heading) :: sec.bullets.flatMap (·.places)

def Sec.entries (sec : Sec Q) : List Entry := sec.bullets.flatMap (·.entry.toList)

/-- The heading of a release, and the line that makes the update mandatory. -/
structure Head where
  heading : Text
  version : Version
  required : Option (Text × Required)
  marked : (lit "## ").isPrefixOf (trimSpace heading) = true
  dated : parseVersion ((trimSpace heading).drop 3) = .ok version
  mandatory : ∀ q, required = some q →
    (lit "**Update required").isPrefixOf (trimSpace q.1) = true ∧
      parseRequired (trimSpace q.1) version = .ok q.2

def Head.places (h : Head) : List (Under × Text) :=
  (h.heading :: (h.required.map Prod.fst).toList).map (.heading, ·)

def Head.release (h : Head) : Release := ⟨h.version, h.required.map Prod.snd, [], [], [], []⟩

/-- The release of a block with these sections. -/
def Head.released (h : Head) (secs : List (Sec Q)) : Release :=
  secs.foldl (fun r sec ↦ r.set sec.entries sec.name) h.release

/-- A release, with its four sections. -/
structure Block (Q : Text → Prop) where
  head : Head
  secs : List (Sec Q)
  complete : secs.map Sec.name = sections

def Block.places (b : Block Q) : List (Under × Text) := b.head.places ++ b.secs.flatMap Sec.places

def Block.release (b : Block Q) : Release := b.head.released b.secs

/-- A notes file. -/
structure Document (Q : Text → Prop) where
  preamble : List Text
  blocks : List (Block Q)
  outside : ∀ l ∈ preamble, (lit "## ").isPrefixOf (trimSpace l) = false

def Document.places (d : Document Q) : List (Under × Text) :=
  d.preamble.map (.preamble, ·) ++ d.blocks.flatMap Block.places

def Document.releases (d : Document Q) : List Release := d.blocks.map Block.release

def Document.bullets (d : Document Q) : List (Bullet Q) :=
  d.blocks.flatMap fun b ↦ b.secs.flatMap (·.bullets)

/-! ## The block under way -/

/-- The section under way, with the bullet that is open. -/
structure Current (Q : Text → Prop) where
  name : SectionName
  heading : Text
  named : trimSpace heading = lit "### " ++ name.label
  bullets : List (Bullet Q)
  draft : Option (Draft Q)

def Current.places (c : Current Q) : List (Under × Text) :=
  (.heading, c.heading) :: c.bullets.flatMap (·.places) ++ (c.draft.map Draft.places).getD []

/-- The release under way. -/
structure Part (Q : Text → Prop) where
  head : Head
  secs : List (Sec Q)
  current : Option (Current Q)
  inOrder : secs.map Sec.name ++ (current.map Current.name).toList =
    sections.take (secs.length + current.toList.length)

def Part.places (p : Part Q) : List (Under × Text) :=
  p.head.places ++ p.secs.flatMap Sec.places ++ (p.current.map Current.places).getD []

/-- The variables of the loop, where the releases so far are `out`. -/
def Part.state (p : Part Q) (out : List Release) (sectionLine pendingLine : Nat) : State where
  out := out
  cur := some (p.head.released p.secs)
  inSection := p.current.map Current.name
  entries := (p.current.map fun c ↦ c.bullets.flatMap (·.entry.toList)).getD []
  seen := p.secs.length + p.current.toList.length
  bullets := (p.current.map fun c ↦ c.bullets.length).getD 0
  sectionLine := sectionLine
  pending := (p.current.bind Current.draft).map Draft.text
  pendingLine := pendingLine

variable {out : List Release} {sl pl ln : Nat} {s s' : State} {raw : Text}

variable {p : Part Q}

/-- The bullet that was open is read. -/
theorem flushBullet_part (h : flushBullet (p.state out sl pl) = .ok s) :
    ∃ p' : Part Q, p'.places = p.places ∧ s = p'.state out sl pl ∧ p'.head = p.head ∧
      p'.secs = p.secs ∧ p'.current.map Current.name = p.current.map Current.name ∧
      p'.current.bind Current.draft = none := by
  obtain ⟨head, secs, current, inOrder⟩ := p
  rw [flushBullet] at h
  cases current with
  | none =>
    cases h
    exact ⟨_, rfl, rfl, rfl, rfl, rfl, rfl⟩
  | some c =>
    obtain ⟨name, heading, named, bullets, draft⟩ := c
    cases draft with
    | none =>
      cases h
      exact ⟨_, rfl, rfl, rfl, rfl, rfl, rfl⟩
    | some d =>
      split at h
      · rename_i hnone
        cases hnone
      · rename_i text htext
        cases htext
        split at h
        · cases h
        · rename_i e he
          cases h
          refine ⟨⟨head, secs, some ⟨name, heading, named, bullets ++ [⟨d, e, he⟩], none⟩,
            inOrder⟩, ?_, ?_, rfl, rfl, rfl, rfl⟩
          · simp [Part.places, Current.places]
          · simp [Part.state]

/-- The section that was open is closed. -/
theorem flushSection_part (h : flushSection (p.state out sl pl) = .ok s) :
    ∃ p' : Part Q, p'.places = p.places ∧ s = p'.state out sl pl ∧ p'.head = p.head ∧
      p'.current = none := by
  rw [flushSection] at h
  split at h
  · cases h
  rename_i s₁ hs₁
  obtain ⟨⟨head, secs, current, inOrder⟩, hplaces, rfl, hhead, -, -, hdraft⟩ := flushBullet_part hs₁
  rw [← hplaces, ← hhead]
  cases current with
  | none =>
    cases h
    exact ⟨_, rfl, rfl, rfl, rfl⟩
  | some c =>
    obtain ⟨name, heading, named, bullets, draft⟩ := c
    obtain rfl : draft = none := hdraft
    change (if bullets.length = 0 then _ else _) = _ at h
    split at h
    · cases h
    · rename_i hbullets
      cases h
      have hfilled : bullets ≠ [] := fun hnil ↦ hbullets (by rw [hnil, length_nil])
      refine ⟨⟨head, secs ++ [⟨name, heading, bullets, named, hfilled⟩], none, ?_⟩, ?_, ?_,
        rfl, rfl⟩
      · simpa using inOrder
      · simp [Part.places, Current.places, Sec.places]
      · simp [Part.state, Head.released, Sec.entries]

/-- The loop's variables between two blocks. -/
def between (out : List Release) (sectionLine pendingLine : Nat) : State :=
  ⟨out, none, none, [], 0, 0, sectionLine, none, pendingLine⟩

/-- The block that was open is closed, and is whole. -/
theorem flushRelease_part (h : flushRelease ln (p.state out sl pl) = .ok s) :
    ∃ b : Block Q, b.places = p.places ∧ b.head = p.head ∧ s = between (out ++ [b.release]) sl pl := by
  rw [flushRelease] at h
  simp only [Part.state] at h
  split at h
  · cases h
  rename_i s₁ hs₁
  obtain ⟨⟨head, secs, current, inOrder⟩, hplaces, rfl, hhead, hcurrent⟩ := flushSection_part hs₁
  obtain rfl : current = none := hcurrent
  change (if secs.length ≠ sections.length then _ else _) = _ at h
  split at h
  · cases h
  · rename_i hseen
    cases h
    have hcomplete : secs.map Sec.name = sections := by
      rw [not_not.mp hseen] at inOrder
      simpa using inOrder
    refine ⟨⟨head, secs, hcomplete⟩, ?_, hhead, rfl⟩
    rw [← hplaces]
    simp [Block.places, Part.places]

/-! ## Headings under a bullet -/

/-- A heading of any level: one to six hashes, and then a blank or nothing. -/
def isHeading (line : Text) : Bool :=
  let hashes := (line.takeWhile (· = 0x23)).length
  1 ≤ hashes && hashes ≤ 6 && (line.drop hashes).head?.all fun b ↦ b = 0x20 || b = 0x09

/-- A heading that is not refused under a bullet: only those of a section are. -/
def isMissedHeading (line : Text) : Bool := isHeading line && !(lit "### ").isPrefixOf line

/-- No heading that would be missed is indented under a bullet. -/
def headingsAtMargin : Under → List Text → Bool
  | _, [] => true
  | u, raw :: rest =>
    !(u = .bullet && isIndented raw && isMissedHeading (trimSpace raw)) &&
      headingsAtMargin (u.next raw) rest

/-- The lines that are neither blank nor comments. -/
def significant (src : Text) : List Text := (lines src).filter (!isSkipped ·)

def State.under (s : State) : Under :=
  if s.pending.isSome then .bullet else if s.cur.isSome then .heading else .preamble

/-- A heading or an update line, which no bullet takes in. -/
theorem Under.next_eq_heading {u : Under} (hcont : u = .bullet → isIndented raw = false)
    (hplain : (lit "- ").isPrefixOf (trimSpace raw) = false)
    (hfirst : u = .preamble → (lit "## ").isPrefixOf (trimSpace raw) = true) :
    u.next raw = .heading := by
  cases u with
  | preamble => simp [Under.next, hfirst]
  | heading => simp [Under.next, hplain]
  | bullet => simp [Under.next, hplain, hcont]

/-- A line that begins otherwise is no bullet. -/
theorem not_bullet {mark line : Text} (hmark : mark.head?.any (· ≠ 0x2D) = true)
    (h : mark.isPrefixOf line = true) : (lit "- ").isPrefixOf line = false := by
  obtain ⟨rest, rfl⟩ := isPrefixOf_iff_prefix.mp h
  have hlit : lit "- " = [0x2D, 0x20] := by decide +kernel
  cases mark with
  | nil => cases hmark
  | cons b mark =>
    have hb : b ≠ 0x2D := of_decide_eq_true hmark
    rw [hlit, cons_append, isPrefixOf_cons_cons, beq_false_of_ne (Ne.symm hb),
      Bool.false_and]

/-- A bullet is open where the loop holds one. -/
theorem State.under_eq_bullet_iff : s.under = .bullet ↔ s.pending.isSome = true := by
  rw [State.under]
  split
  · simp [*]
  · split <;> simp [*]

/-! ## Reading the lines -/

/-- The version is older than that of the last block. -/
def Document.Above (d : Document Q) (v : Version) : Prop :=
  ∀ b, d.blocks.getLast? = some b → b.head.version.compare v = .gt

/-- The blocks are newest first. -/
def Document.Descending (d : Document Q) : Prop :=
  d.blocks.IsChain fun a b ↦ a.head.version.compare b.head.version = .gt

theorem Head.released_version (h : Head) (secs : List (Sec Q)) :
    (h.released secs).version = h.version ∧ (h.released secs).required = h.required.map Prod.snd := by
  have hset : ∀ (r : Release) (sec : Sec Q), (r.set sec.entries sec.name).version = r.version ∧
      (r.set sec.entries sec.name).required = r.required := by
    intro r sec
    cases hname : sec.name <;> exact ⟨rfl, rfl⟩
  rw [Head.released]
  induction secs using List.reverseRecOn with
  | nil => exact ⟨rfl, rfl⟩
  | append_singleton secs sec ih =>
    rw [foldl_append]
    exact ⟨(hset _ _).1.trans ih.1, (hset _ _).2.trans ih.2⟩

/-- What the lines read so far have made of the loop's variables. -/
inductive Reads (Q : Text → Prop) : List (Under × Text) → State → Prop
  | preamble {pre : List Text} {sl pl : Nat}
      (h : ∀ l ∈ pre, (lit "## ").isPrefixOf (trimSpace l) = false) :
      Reads Q (pre.map (.preamble, ·)) (between [] sl pl)
  | block {pre : List (Under × Text)} {s : State} (d : Document Q) (p : Part Q)
      (hpre : pre = d.places ++ p.places) (hs : ∃ sl pl, s = p.state d.releases sl pl)
      (hdesc : d.Descending)
      (habove : d.Above p.head.version) (hstart : p.current = none → p.secs = []) : Reads Q pre s

/-- The document with one more block. -/
def Document.add (d : Document Q) (b : Block Q) : Document Q where
  preamble := d.preamble
  blocks := d.blocks ++ [b]
  outside := d.outside

@[simp] theorem Document.places_add (d : Document Q) (b : Block Q) :
    (d.add b).places = d.places ++ b.places := by
  simp [Document.add, Document.places]

@[simp] theorem Document.releases_add (d : Document Q) (b : Block Q) :
    (d.add b).releases = d.releases ++ [b.release] := by
  simp [Document.add, Document.releases]

variable {d : Document Q}

theorem Document.above_add {b : Block Q} {v : Version}
    (h : b.head.version.compare v = .gt) : (d.add b).Above v := by
  simpa [Document.add, Document.Above] using h

theorem Document.Descending.add {b : Block Q} (h : d.Descending)
    (habove : d.Above b.head.version) : (d.add b).Descending := by
  refine isChain_append.mpr ⟨h, .singleton _, fun a ha c hc ↦ ?_⟩
  obtain rfl : b = c := by simpa using hc
  exact habove a ha

/-- A block begins, with nothing but its heading. -/
def Part.start (raw : Text) (v : Version) (hmarked : (lit "## ").isPrefixOf (trimSpace raw) = true)
    (hdated : parseVersion ((trimSpace raw).drop 3) = .ok v) : Part Q where
  head := ⟨raw, v, none, hmarked, hdated, fun _ h ↦ by cases h⟩
  secs := []
  current := none
  inOrder := rfl

theorem Part.under_ne_preamble (p : Part Q) : (p.state out sl pl).under ≠ .preamble := by
  simp only [State.under, Part.state, isSome_some, if_true]
  split <;> simp

theorem Reads.preamble_append {pre : List Text} {sl pl : Nat}
    (hpre : ∀ l ∈ pre, (lit "## ").isPrefixOf (trimSpace l) = false)
    (hplain : (lit "## ").isPrefixOf (trimSpace raw) = false) :
    Reads Q (pre.map (.preamble, ·) ++ [(.preamble, raw)]) (between [] sl pl) := by
  rw [show [((.preamble : Under), raw)] = [raw].map (.preamble, ·) from rfl, ← map_append]
  refine .preamble fun l hl ↦ ?_
  rcases mem_append.mp hl with hl | hl
  · exact hpre l hl
  · exact mem_singleton.mp hl ▸ hplain

section

variable {pre : List (Under × Text)} (h : Reads Q pre s)

include h

theorem Reads.releaseHeading
    (hmarked : (lit "## ").isPrefixOf (trimSpace raw) = true)
    (hstep : releaseHeading s ln (trimSpace raw) = .ok s') :
    Reads Q (pre ++ [(.heading, raw)]) s' ∧ s'.under = .heading := by
  rw [Notes.releaseHeading] at hstep
  split at hstep
  · cases hstep
  rename_i s₁ hs₁
  split at hstep
  · cases hstep
  rename_i v hv
  cases h with
  | preamble hpre =>
    cases hs₁
    cases hstep
    refine ⟨.block ⟨_, [], hpre⟩ (.start raw v hmarked hv) ?_ ⟨_, _, rfl⟩ .nil
      (fun b hb ↦ by cases hb) fun _ ↦ rfl, rfl⟩
    simp [Document.places, Part.start, Part.places, Head.places]
  | block d p hpre hs hdesc habove hstart =>
    obtain ⟨sl, pl, rfl⟩ := hs
    obtain ⟨b, hplaces, hhead, rfl⟩ := flushRelease_part hs₁
    simp only [between, getLast?_append, getLast?_singleton, some_or] at hstep
    split at hstep
    · rename_i hnewer
      cases hstep
      rw [Block.release, (b.head.released_version b.secs).1] at hnewer
      refine ⟨.block (d.add b) (.start raw v hmarked hv) ?_ ⟨sl, pl, ?_⟩ (hdesc.add (hhead ▸ habove))
        (Document.above_add hnewer) fun _ ↦ rfl, rfl⟩
      · rw [hpre, ← hplaces]
        simp [Part.start, Part.places, Head.places]
      · simp [Part.state, Part.start, Head.released, Head.release]
    · cases hstep

theorem Reads.sectionHeading
    (hmarked : (lit "### ").isPrefixOf (trimSpace raw) = true)
    (hstep : sectionHeading s ln (trimSpace raw) = .ok s') :
    Reads Q (pre ++ [(.heading, raw)]) s' ∧ s.under ≠ .preamble ∧ s'.under = .heading := by
  rw [Notes.sectionHeading] at hstep
  cases h with
  | preamble hpre => cases hstep
  | block d p hpre hs hdesc habove hstart =>
    obtain ⟨sl, pl, rfl⟩ := hs
    simp only [Part.state] at hstep
    split at hstep
    · cases hstep
    rename_i s₁ hs₁
    obtain ⟨⟨head, secs, current, inOrder⟩, hplaces, rfl, hhead, hcurrent⟩ := flushSection_part hs₁
    obtain rfl : current = none := hcurrent
    split at hstep
    · rename_i name hname
      split at hstep
      · rename_i hlabel
        cases hstep
        have hnamed : trimSpace raw = lit "### " ++ name.label := by
          obtain ⟨rest, hrest⟩ := isPrefixOf_iff_prefix.mp hmarked
          rw [← hrest, drop_left' (by decide +kernel)] at hlabel
          rw [← hrest, hlabel]
        have hnext : sections[secs.length]? = some name := hname
        refine ⟨.block d ⟨head, secs, some ⟨name, raw, hnamed, [], none⟩, ?_⟩ ?_
          ⟨_, _, rfl⟩ hdesc
          (hhead ▸ habove) (fun hnone ↦ by cases hnone), p.under_ne_preamble, rfl⟩
        · have hord : secs.map Sec.name = sections.take secs.length := by simpa using inOrder
          simp [hord, take_add_one, hnext]
        · rw [hpre, ← hplaces]
          simp [Part.places, Current.places]
      · cases hstep
    · cases hstep

theorem Reads.requiredLine
    (hmarked : (lit "**Update required").isPrefixOf (trimSpace raw) = true)
    (hstep : requiredLine s ln (trimSpace raw) = .ok s') :
    Reads Q (pre ++ [(.heading, raw)]) s' ∧ s.under ≠ .preamble ∧ s'.under = .heading := by
  rw [Notes.requiredLine] at hstep
  cases h with
  | preamble hpre => cases hstep
  | block d p hpre hs hdesc habove hstart =>
    obtain ⟨sl, pl, rfl⟩ := hs
    obtain ⟨head, secs, current, inOrder⟩ := p
    cases current with
    | some c => cases hstep
    | none =>
      -- The line comes before the first section, and there is no other.
      obtain rfl : secs = [] := hstart rfl
      obtain ⟨hversion, hrequired⟩ := head.released_version ([] : List (Sec Q))
      simp only [Part.state, map_none, isSome_none, Bool.false_eq_true, if_false, hversion,
        hrequired] at hstep
      obtain ⟨heading, version, required, hhead, hdated, hmandatory⟩ := head
      cases required with
      | some q => cases hstep
      | none =>
        simp only [map_none, isSome_none, Bool.false_eq_true, if_false] at hstep
        split at hstep
        · cases hstep
        · rename_i req hreq
          cases hstep
          refine ⟨.block d ⟨⟨heading, version, some (raw, req), hhead, hdated, fun q hq ↦ ?_⟩,
            [], none, rfl⟩ ?_ ⟨sl, pl, rfl⟩ hdesc habove fun _ ↦ rfl, Part.under_ne_preamble _, rfl⟩
          · cases hq
            exact ⟨hmarked, hreq⟩
          · rw [hpre]
            simp [Part.places, Head.places]

theorem Reads.bulletLine
    (hmarked : (lit "- ").isPrefixOf (trimSpace raw) = true)
    (hplain : (lit "## ").isPrefixOf (trimSpace raw) = false)
    (hstep : bulletLine s ln (trimSpace raw) = .ok s') :
    Reads Q (pre ++ [(s'.under, raw)]) s' ∧
      (s.under = .preamble ∧ s'.under = .preamble ∨ s.under ≠ .preamble ∧ s'.under = .bullet) := by
  rw [Notes.bulletLine] at hstep
  cases h with
  | preamble hpre =>
    cases hstep
    exact ⟨Reads.preamble_append hpre hplain, .inl ⟨rfl, rfl⟩⟩
  | block d p hpre hs hdesc habove hstart =>
    obtain ⟨sl, pl, rfl⟩ := hs
    have hin : (p.state d.releases sl pl).inSection = p.current.map Current.name := rfl
    rw [hin] at hstep
    split at hstep
    · cases hstep
    · rename_i name₀ hcurrent
      split at hstep
      · cases hstep
      rename_i s₁ hs₁
      obtain ⟨⟨head, secs, current, inOrder⟩, hplaces, rfl, hhead, hsecs, hname, hdraft⟩ :=
        flushBullet_part hs₁
      cases current with
      | none =>
        rw [hcurrent] at hname
        cases hname
      | some c' =>
        obtain ⟨name, heading, named, bullets, draft⟩ := c'
        obtain rfl : draft = none := hdraft
        cases hstep
        refine ⟨.block d ⟨head, secs, some ⟨name, heading, named, bullets,
          some ⟨raw, [], hmarked, fun l hl ↦ by cases hl⟩⟩, inOrder⟩ ?_ ⟨_, _, rfl⟩ hdesc
          (hhead ▸ habove) (fun hnone ↦ by cases hnone), .inr ⟨p.under_ne_preamble, rfl⟩⟩
        rw [hpre, ← hplaces]
        simp [Part.places, Current.places, Draft.places, State.under]

theorem Reads.continueBullet {text : Text}
    (hpending : s.pending = some text) (hindented : isIndented raw = true)
    (hq : (lit "### ").isPrefixOf (trimSpace raw) = false → Q raw)
    (hstep : continueBullet s text ln (trimSpace raw) = .ok s') :
    Reads Q (pre ++ [(.bullet, raw)]) s' ∧ s'.under = .bullet := by
  rw [Notes.continueBullet] at hstep
  split at hstep
  · cases hstep
  split at hstep
  · cases hstep
  rename_i hrefused
  split at hstep
  · cases hstep
  cases hstep
  simp only [Bool.or_eq_true, not_or, Bool.not_eq_true] at hrefused
  cases h with
  | preamble hpre => cases hpending
  | block d p hpre hs hdesc habove hstart =>
    obtain ⟨sl, pl, rfl⟩ := hs
    obtain ⟨head, secs, current, inOrder⟩ := p
    cases current with
    | none => cases hpending
    | some c =>
      obtain ⟨name, heading, named, bullets, draft⟩ := c
      cases draft with
      | none => cases hpending
      | some draft =>
        cases hpending
        obtain ⟨first, more, opens, indented⟩ := draft
        refine ⟨.block d ⟨head, secs, some ⟨name, heading, named, bullets,
          some ⟨first, more ++ [raw], opens, fun l hl ↦ ?_⟩⟩, inOrder⟩ ?_
            ⟨sl, pl, ?_⟩ hdesc habove
          (fun hnone ↦ by cases hnone), rfl⟩
        · rcases mem_append.mp hl with hl | hl
          · exact indented l hl
          · exact mem_singleton.mp hl ▸ ⟨hindented, hq hrefused.1⟩
        · rw [hpre]
          simp [Part.places, Current.places, Draft.places]
        · simp [Part.state, Draft.text]

/-- **One turn of the loop.**  The line finds its place, and the loop knows where the next one is. -/
theorem Reads.step (hskip : isSkipped raw = false)
    (hq : s.under = .bullet → isIndented raw = true →
      (lit "### ").isPrefixOf (trimSpace raw) = false → Q raw)
    (hstep : s.step ln raw = .ok s') :
    Reads Q (pre ++ [(s'.under, raw)]) s' ∧ s'.under = s.under.next raw := by
  simp only [State.step, hskip, Bool.false_eq_true, if_false] at hstep
  split at hstep
  · rename_i text hpending hindented
    have hunder : s.under = .bullet := State.under_eq_bullet_iff.mpr (by rw [hpending]; rfl)
    obtain ⟨hread, hnext⟩ := h.continueBullet hpending hindented (hq hunder hindented) hstep
    rw [hnext]
    exact ⟨hread, by simp [hunder, Under.next, hindented]⟩
  rename_i hopen
  have hcont : s.under = .bullet → isIndented raw = false := by
    intro hunder
    obtain ⟨text, htext⟩ := isSome_iff_exists.mp (State.under_eq_bullet_iff.mp hunder)
    exact Bool.eq_false_iff.mpr fun hindented ↦ hopen text htext hindented
  split at hstep
  · rename_i hmarked
    obtain ⟨hread, hnext⟩ := h.releaseHeading hmarked hstep
    rw [hnext, Under.next_eq_heading hcont (not_bullet (by decide +kernel) hmarked) fun _ ↦ hmarked]
    exact ⟨hread, rfl⟩
  rename_i hplain
  rw [Bool.not_eq_true] at hplain
  split at hstep
  · rename_i hmarked
    obtain ⟨hread, hin, hnext⟩ := h.sectionHeading hmarked hstep
    rw [hnext, Under.next_eq_heading hcont (not_bullet (by decide +kernel) hmarked) (absurd · hin)]
    exact ⟨hread, rfl⟩
  split at hstep
  · rename_i hmarked
    obtain ⟨hread, hin, hnext⟩ := h.requiredLine hmarked hstep
    rw [hnext, Under.next_eq_heading hcont (not_bullet (by decide +kernel) hmarked) (absurd · hin)]
    exact ⟨hread, rfl⟩
  split at hstep
  · rename_i hmarked
    obtain ⟨hread, ⟨hunder, hnext⟩ | ⟨hin, hnext⟩⟩ := h.bulletLine hmarked hplain hstep
    · exact ⟨hread, by simp [hnext, hunder, Under.next, hplain]⟩
    · refine ⟨hread, ?_⟩
      cases hunder : s.under with
      | preamble => exact (hin hunder).elim
      | heading => simp [hnext, Under.next, hmarked]
      | bullet => simp [hnext, Under.next, hmarked]
  cases h with
  | preamble hpre =>
    cases hstep
    exact ⟨Reads.preamble_append hpre hplain, by simp [between, State.under, Under.next, hplain]⟩
  | block d p hpre hs hdesc habove hstart =>
    obtain ⟨sl, pl, rfl⟩ := hs
    simp only [Part.state] at hstep
    split at hstep <;> cases hstep

end

/-- The line is no heading. -/
def Plain (raw : Text) : Prop := isHeading (trimSpace raw) = false

/-- **All lines.**  What the loop has read is in its place, and no heading is in a bullet. -/
theorem Reads.run {pre : List (Under × Text)} {rest : List Text} (h : Reads Plain pre s)
    (hmargin : headingsAtMargin s.under (rest.filter (!isSkipped ·)) = true)
    (hrun : s.run ln rest = .ok s') :
    Reads Plain (pre ++ place s.under (rest.filter (!isSkipped ·))) s' := by
  induction rest generalizing pre s ln with
  | nil =>
    cases hrun
    simpa [place] using h
  | cons raw rest ih =>
    rw [State.run] at hrun
    split at hrun
    · cases hrun
    rename_i s₁ hs₁
    cases hskip : isSkipped raw with
    | true =>
      simp only [State.step, hskip, if_true] at hs₁
      cases hs₁
      simp only [filter_cons, hskip, Bool.not_true, Bool.false_eq_true, if_false] at hmargin ⊢
      exact ih h hmargin hrun
    | false =>
      simp only [filter_cons, hskip, Bool.not_false, if_true, headingsAtMargin,
        Bool.and_eq_true] at hmargin ⊢
      have hq : s.under = .bullet → isIndented raw = true →
          (lit "### ").isPrefixOf (trimSpace raw) = false → Plain raw := by
        intro hunder hindented hsection
        simpa [Plain, isMissedHeading, hunder, hindented, hsection] using hmargin.1
      obtain ⟨hread, hnext⟩ := h.step hskip hq hs₁
      have hrest := ih hread (hnext ▸ hmargin.2) hrun
      rwa [append_assoc, hnext] at hrest

/-- Later parts are compared only if the earlier are equal. -/
theorem Version.compare_eq_gt_iff {v o : Version} :
    v.compare o = .gt ↔ o.year < v.year ∨ v.year = o.year ∧ (o.month < v.month ∨ v.month = o.month ∧
      (o.day < v.day ∨ v.day = o.day ∧ o.counter < v.counter)) := by
  simp only [Version.compare, Ordering.then_eq_gt, Nat.compare_eq_gt, Nat.compare_eq_eq]

instance : Trans (fun a b : Version ↦ a.compare b = .gt) (fun a b : Version ↦ a.compare b = .gt)
    (fun a b : Version ↦ a.compare b = .gt) where
  trans hab hbc := by
    rw [Version.compare_eq_gt_iff] at hab hbc ⊢
    omega

theorem Document.Descending.pairwise (h : d.Descending) :
    d.releases.Pairwise fun a b ↦ a.version.compare b.version = .gt := by
  have hchain : (d.blocks.map fun b ↦ b.head.version).IsChain fun a b ↦ a.compare b = .gt :=
    (isChain_map _).mpr h
  have hversion : ∀ b : Block Q, b.release.version = b.head.version :=
    fun b ↦ (b.head.released_version b.secs).1
  rw [Document.releases, pairwise_map]
  simp only [hversion]
  exact pairwise_map.mp hchain.pairwise

/-- The end of the file closes the last block. -/
theorem Reads.finish {pre : List (Under × Text)} (h : Reads Q pre s)
    (hflush : flushRelease ln s = .ok s') :
    ∃ d : Document Q, d.places = pre ∧ d.releases = s'.out ∧ d.Descending := by
  cases h with
  | preamble hpre =>
    cases hflush
    exact ⟨⟨_, [], hpre⟩, by simp [Document.places], rfl, .nil⟩
  | block d p hpre hs hdesc habove hstart =>
    obtain ⟨sl, pl, rfl⟩ := hs
    obtain ⟨b, hplaces, hhead, rfl⟩ := flushRelease_part hflush
    refine ⟨d.add b, ?_, ?_, hdesc.add (hhead ▸ habove)⟩
    · rw [Document.places_add, hpre, hplaces]
    · rw [Document.releases_add, between]

/-! ## The converse -/

theorem Draft.of_mem_places {b : Draft Q} {x : Under × Text} (h : x ∈ b.places) :
    (lit "- ").isPrefixOf (trimSpace x.2) = true ∨ Q x.2 := by
  obtain ⟨l, hl, rfl⟩ := mem_map.mp h
  rcases mem_cons.mp hl with rfl | hl
  · exact .inl b.opens
  · exact .inr (b.indented l hl).2

/-- What is in the place of a bullet is one: its first line, or one that continues it. -/
theorem Document.of_mem_places {x : Under × Text} (h : x ∈ d.places) (hx : x.1 = .bullet) :
    (lit "- ").isPrefixOf (trimSpace x.2) = true ∨ Q x.2 := by
  rcases mem_append.mp h with h | h
  · obtain ⟨l, -, rfl⟩ := mem_map.mp h
    cases hx
  obtain ⟨b, -, h⟩ := mem_flatMap.mp h
  rcases mem_append.mp h with h | h
  · obtain ⟨l, -, rfl⟩ := mem_map.mp h
    cases hx
  obtain ⟨sec, -, h⟩ := mem_flatMap.mp h
  rcases mem_cons.mp h with rfl | h
  · cases hx
  obtain ⟨bullet, -, h⟩ := mem_flatMap.mp h
  exact Draft.of_mem_places h

theorem not_bullet_of_isHeading {line : Text} (h : isHeading line = true) :
    (lit "- ").isPrefixOf line = false := by
  have hlit : lit "- " = [0x2D, 0x20] := by decide +kernel
  cases line with
  | nil => cases h
  | cons b line =>
    by_cases hb : b = 0x23
    · subst hb
      rw [hlit, isPrefixOf_cons_cons]
      rfl
    · simp [isHeading, hb] at h

theorem headingsAtMargin_of_places {u : Under} {ls : List Text}
    (h : ∀ x ∈ place u ls, x.1 = .bullet → (lit "- ").isPrefixOf (trimSpace x.2) = true ∨ Plain x.2) :
    headingsAtMargin u ls = true := by
  induction ls generalizing u with
  | nil => rfl
  | cons raw rest ih =>
    rw [place, forall_mem_cons] at h
    rw [headingsAtMargin, ih h.2, Bool.and_true, Bool.not_eq_true']
    by_contra hmissed
    simp only [Bool.not_eq_false, Bool.and_eq_true, decide_eq_true_eq, isMissedHeading] at hmissed
    obtain ⟨⟨rfl, hindented⟩, hheading, -⟩ := hmissed
    rcases h.1 (by simp [Under.next, hindented]) with hbullet | hplain
    · exact absurd hbullet (by simp [not_bullet_of_isHeading hheading])
    · exact absurd hheading (by simp [show isHeading (trimSpace raw) = false from hplain])

/-- **Release notes are read without silent loss**, exactly where no heading that the parser misses is
indented under a bullet.  The lines of an accepted file, but for blank ones and comments, are those of a
document, in order, each in the place that it has in the text.  The releases are the document's, and newest
first; no heading is part of a bullet; and the services of an entry are the code spans that end its
text. -/
theorem parse_accounts {src : Text} {rs : List Release} (h : parse src = .ok rs) :
    (∃ d : Document Plain, d.places = place .preamble (significant src) ∧ d.releases = rs ∧
      (rs.Pairwise fun a b ↦ a.version.compare b.version = .gt) ∧
      ∀ b ∈ d.bullets, ∀ e, b.entry = some e → Tagged b.text e) ↔
    headingsAtMargin .preamble (significant src) = true := by
  constructor
  · rintro ⟨d, hplaces, -⟩
    exact headingsAtMargin_of_places (hplaces ▸ fun x hx ↦ d.of_mem_places hx)
  intro hmargin
  rw [parse] at h
  split at h
  · cases h
  rename_i s hs
  split at h
  · cases h
  rename_i s' hs'
  cases h
  have hstart : Reads Plain [] State.start := by
    refine @Reads.preamble _ [] _ _ fun l hl ↦ ?_
    cases hl
  obtain ⟨d, hplaces, hreleases, hdesc⟩ := (hstart.run hmargin hs).finish hs'
  refine ⟨d, hplaces, hreleases, hreleases ▸ hdesc.pairwise, fun b _ e he ↦ ?_⟩
  have hread := b.read
  rw [he] at hread
  exact tagged_of_parseEntry hread

/-- Two releases, the newer one mandatory and with an entry over two lines. -/
def notes : Text :=
  lit "# Notes\n\n## 2026.08.28.2\n**Update required by 2026-09-05** - old tokens expire\n" ++
  lit "### Features\n- Moves keep\n  the backups. `core` `node`\n### Breaking\n- Nothing.\n" ++
  lit "### Security\n<!-- none -->\n- None\n### Fixes\n- A fix.\n\n" ++
  lit "## 2026.08.28\n### Features\n- Nothing.\n### Breaking\n- Nothing.\n" ++
  lit "### Security\n- Nothing.\n### Fixes\n- Voice. `voice`\n"

def notesReleases : List Release :=
  [⟨⟨2026, 8, 28, 2, lit "2026.08.28.2"⟩, some ⟨1788652799, false, lit "old tokens expire"⟩,
      [⟨lit "Moves keep the backups.", [lit "core", lit "node"]⟩], [], [], [⟨lit "A fix.", []⟩]⟩,
    ⟨⟨2026, 8, 28, 0, lit "2026.08.28"⟩, none, [], [], [], [⟨lit "Voice.", [lit "voice"]⟩]⟩]

theorem parse_accounts_notes :
    ∃ d : Document Plain, d.places = place .preamble (significant notes) ∧ d.releases = notesReleases ∧
      (notesReleases.Pairwise fun a b ↦ a.version.compare b.version = .gt) ∧
      ∀ b ∈ d.bullets, ∀ e, b.entry = some e → Tagged b.text e :=
  (parse_accounts (by decide +kernel)).mpr (by decide +kernel)

/-- The indent hides the heading of the next release. -/
def swallowed : Text :=
  lit "## 2026.08.28\n### Features\n- Nothing.\n### Breaking\n- Nothing.\n" ++
  lit "### Security\n- Nothing.\n### Fixes\n- A fix.\n  ## 2026.08.27\n"

def swallowedReleases : List Release :=
  [⟨⟨2026, 8, 28, 0, lit "2026.08.28"⟩, none, [], [], [], [⟨lit "A fix. ## 2026.08.27", []⟩]⟩]

/-- An indented version heading becomes part of an entry's text, in a file that is accepted. -/
theorem not_parse_accounts : parse swallowed = .ok swallowedReleases ∧
    ¬∃ d : Document Plain, d.places = place .preamble (significant swallowed) := by
  refine ⟨by decide +kernel, ?_⟩
  rintro ⟨d, hplaces⟩
  have hmargin := headingsAtMargin_of_places (hplaces ▸ fun x hx ↦ d.of_mem_places hx)
  exact absurd hmargin (by decide +kernel)

end Dylaris.Notes
