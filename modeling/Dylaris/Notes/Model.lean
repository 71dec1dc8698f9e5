import Dylaris.Library.Text

/-!
# The parser of release notes

`pkg/release/release.go`.  A notes file is a preamble and then blocks, one a release: a version
heading, a line that makes the update mandatory perhaps, and four sections of bullets.  A bullet may run
over several lines, the further ones indented, and ends in the components that it concerns, as code
spans.

`parse` is the loop of the source, one line a step, over a `State` that holds the loop's variables; the
three closures `flushBullet`, `flushSection` and `flushRelease` close what a line ends.  Regular
expressions are spelled out over bytes.  A deadline is a number of seconds.
-/

set_option autoImplicit false

namespace Dylaris.Notes

open Text

/-! ## Versions -/

/-- `Version`.  A version without a counter has counter 0. -/
structure Version where
  year : Nat
  month : Nat
  day : Nat
  counter : Nat
  raw : Text
deriving DecidableEq, Repr

/-- What is wrong with a line. -/
inductive Problem
  | notAVersion (s : Text)
  | invalidCounter (s : Text)
  | notARealDate (s : Text)
  | unknownService (name : Text)
  | noText
  | cannotReadRequired (line : Text)
  | cannotReadDeadline (when_ : Text)
  | nestedBullet (line : Text)
  | indentedHeading (line : Text)
  | textAfterTags (line : Text)
  | notOlder (v above : Version)
  | sectionBeforeRelease (line : Text)
  | wrongSection (v : Version) (name want : Text)
  | emptySection (v : Version) (name : Text)
  | missingSections (v : Version) (seen : Nat)
  | requiredBeforeRelease
  | requiredInSection
  | secondRequired (v : Version)
  | bulletOutsideSection
  | titleInRelease (v : Version)
  | unexpectedLine (line : Text) (v : Version)
deriving DecidableEq, Repr

/-- `ParseVersion`. -/
def parseVersion (s : Text) : Except Problem Version :=
  let s := trimSpace s
  let year := s.take 4
  let month := (s.drop 5).take 2
  let day := (s.drop 8).take 2
  let rest := s.drop 10
  -- versionRe
  if year.length = 4 ∧ year.all isDigit ∧ s[4]? = some 0x2E ∧
      month.length = 2 ∧ month.all isDigit ∧ s[7]? = some 0x2E ∧ day.length = 2 ∧ day.all isDigit ∧
      (rest = [] ∨ rest.head? = some 0x2E ∧ rest.tail ≠ [] ∧ rest.tail.all isDigit) then
    if rest ≠ [] ∧ (parseInt64 rest.tail = none ∨ decimal rest.tail < 1) then
      .error (.invalidCounter s)
    else if decimal month < 1 ∨ 12 < decimal month ∨ decimal day < 1 ∨ 31 < decimal day then
      .error (.notARealDate s)
    else .ok ⟨decimal year, decimal month, decimal day, decimal rest.tail, s⟩
  else .error (.notAVersion s)

/-- `Compare`. -/
def Version.compare (v o : Version) : Ordering :=
  (Ord.compare v.year o.year).then ((Ord.compare v.month o.month).then
    ((Ord.compare v.day o.day).then (Ord.compare v.counter o.counter)))

/-! ## Entries -/

/-- `Services`. -/
def services : List Text :=
  [lit "core", lit "node", lit "log-shipper", lit "edge", lit "link", lit "hub", lit "warp",
    lit "beam-relay", lit "spine", lit "voice"]

/-- `Retired`. -/
def retired : List Text := [lit "panel"]

def knownService (s : Text) : Bool := services.contains s || retired.contains s

/-- `Entry`. -/
structure Entry where
  text : Text
  services : List Text
deriving DecidableEq, Repr

/-- The backtick. -/
def tick : UInt8 := 0x60

/-- `\s` of a regular expression. -/
def reSpace (b : UInt8) : Bool := b = 0x09 || b = 0x0A || b = 0x0C || b = 0x0D || b = 0x20

/-- The code span a text ends in, if it ends in one, and the text before it.  The text is given last byte
first, and so is what is left. -/
def lastSpan : Text → Option (Text × Text)
  | [] => none
  | b :: t =>
    if b = tick then
      match t.takeWhile (· ≠ tick), t.dropWhile (· ≠ tick) with
      | c :: content, _ :: before => some ((c :: content).reverse, before)
      | _, _ => none
    else none

/-- The code spans a text ends in, with the white space before each.  No text has more of them than
bytes. -/
def spansFrom : Nat → Text → List Text × Text
  | 0, t => ([], t)
  | fuel + 1, t =>
    match lastSpan t with
    | none => ([], t)
    | some (content, before) =>
      let (contents, rest) := spansFrom fuel (before.dropWhile reSpace)
      (contents ++ [content], rest)

/-- `trailingCodeRe` and `codeTokenRe`: the contents of the code spans that end the text, and the text
before them. -/
def trailingCode (t : Text) : List Text × Text :=
  let (contents, rest) := spansFrom t.length t.reverse
  (contents, rest.reverse)

def endsInServiceTags (t : Text) : Bool :=
  (trailingCode t).1 ≠ [] && (trailingCode t).1.all fun m ↦ knownService (trimSpace m)

def onlyServiceTags (t : Text) : Bool :=
  (trailingCode t).1 ≠ [] && trimSpace (trailingCode t).2 = [] && endsInServiceTags t

/-- `strings.ToLower`, where it gives ASCII: of the other letters only the dotted capital I and the kelvin
sign have an ASCII lower case. -/
def toLower : Text → Text
  | 0xC4 :: 0xB0 :: t => 0x69 :: toLower t
  | 0xE2 :: 0x84 :: 0xAA :: t => 0x6B :: toLower t
  | b :: t => (if 0x41 ≤ b && b ≤ 0x5A then b + 0x20 else b) :: toLower t
  | [] => []

/-- The placeholder of a section with nothing in it. -/
def isPlaceholder (s : Text) : Bool :=
  let t := ((toLower s).reverse.dropWhile (· = 0x2E)).reverse
  t = lit "nothing" || t = lit "none"

/-- `parseEntry`; `none` is the placeholder. -/
def parseEntry (s : Text) : Except Problem (Option Entry) :=
  let s := trimSpace s
  if isPlaceholder s then .ok none
  else
    let (contents, prose) := trailingCode s
    let names := contents.map trimSpace
    match names.find? (!knownService ·) with
    | some name => .error (.unknownService name)
    | none =>
      let text := if contents = [] then s else trimSpace prose
      if text = [] then .error .noText else .ok (some ⟨text, names⟩)

/-! ## The mandatory update -/

/-- `Required`. -/
structure Required where
  deadline : Int
  immediate : Bool
  note : Text
deriving DecidableEq, Repr

/-- The number of the day, from 1970-01-01; days past the end of the month run on, as in `time.Date`. -/
def dayNumber (year month day : Nat) : Int :=
  let y : Int := if month ≤ 2 then year - 1 else year
  let m := if month ≤ 2 then month + 9 else month - 3
  let ofEra := y % 400
  y / 400 * 146097 + ofEra * 365 + ofEra / 4 - ofEra / 100 + ((153 * m + 2) / 5 : Nat) + day - 1 - 719468

/-- `daysIn`. -/
def daysIn (year month : Nat) : Int :=
  (if month = 12 then dayNumber (year + 1) 1 1 else dayNumber year (month + 1) 1) - dayNumber year month 1

/-- `time.Parse("2006-01-02", …)`: the day, and what follows it. -/
def parseDay (t : Text) : Option (Int × Text) :=
  let year := t.take 4
  let month := (t.drop 5).take 2
  let day := (t.drop 8).take 2
  if year.length = 4 ∧ year.all isDigit ∧ t[4]? = some 0x2D ∧ month.length = 2 ∧ month.all isDigit ∧
      t[7]? = some 0x2D ∧ day.length = 2 ∧ day.all isDigit ∧ 1 ≤ decimal month ∧
        decimal month ≤ 12 ∧
      1 ≤ decimal day ∧ (decimal day : Int) ≤ daysIn (decimal year) (decimal month) then
    some (dayNumber (decimal year) (decimal month) (decimal day), t.drop 10)
  else none

/-- `time.Parse("15:04", …)`: the seconds of the day. -/
def parseClock (t : Text) : Option Nat :=
  let hour := t.takeWhile isDigit
  let minute := t.drop (hour.length + 1)
  if (hour.length = 1 ∨ hour.length = 2) ∧ decimal hour < 24 ∧ t[hour.length]? = some 0x3A ∧
      minute.length = 2 ∧ minute.all isDigit ∧ decimal minute < 60 then
    some (decimal hour * 3600 + decimal minute * 60)
  else none

/-- The deadline of `**Update required by …**`. -/
def parseDeadline (when_ : Text) : Option Int :=
  let clocked : Option Int :=
    if (lit " UTC").isSuffixOf when_ then
      (parseDay (when_.take (when_.length - 4))).bind fun (day, rest) ↦
        if rest.head? = some 0x20 then
          (parseClock (rest.dropWhile (· = 0x20))).map fun seconds ↦ day * 86400 + seconds
        else none
    else none
  match clocked with
  | some t => some t
  | none =>
    match parseDay when_ with
    | some (day, []) => some (day * 86400 + 86399)
    | _ => none

/-- The end of `requiredRe`: the closing stars and the reason. -/
def parseReason (t : Text) : Option Text :=
  let t := t.dropWhile reSpace
  if (lit "**").isPrefixOf t then
    match (t.drop 2).dropWhile reSpace with
    | [] => some []
    | 0x2D :: note => some (trimSpace note)
    | 0xE2 :: 0x80 :: 0x94 :: note => some (trimSpace note)
    | _ => none
  else none

/-- `parseRequired`. -/
def parseRequired (line : Text) (v : Version) : Except Problem Required :=
  let body := line.drop (lit "**Update required ").length
  if ¬(lit "**Update required ").isPrefixOf line then .error (.cannotReadRequired line)
  else if (lit "now").isPrefixOf body then
    match parseReason (body.drop 3) with
    | some note => .ok ⟨dayNumber v.year v.month v.day * 86400, true, note⟩
    | none => .error (.cannotReadRequired line)
  else if (lit "by ").isPrefixOf body then
    let when_ := (body.drop 3).takeWhile (· ≠ 0x2A)
    match when_, parseReason ((body.drop 3).dropWhile (· ≠ 0x2A)) with
    | _ :: _, some note =>
      match parseDeadline (trimSpace when_) with
      | some deadline => .ok ⟨deadline, false, note⟩
      | none => .error (.cannotReadDeadline (trimSpace when_))
    | _, _ => .error (.cannotReadRequired line)
  else .error (.cannotReadRequired line)

/-! ## Releases -/

inductive SectionName
  | features | breaking | security | fixes
deriving DecidableEq, Repr

def SectionName.label : SectionName → Text
  | .features => lit "Features"
  | .breaking => lit "Breaking"
  | .security => lit "Security"
  | .fixes => lit "Fixes"

/-- `sections`. -/
def sections : List SectionName := [.features, .breaking, .security, .fixes]

/-- `Release`. -/
structure Release where
  version : Version
  required : Option Required
  features : List Entry
  breaking : List Entry
  security : List Entry
  fixes : List Entry
deriving DecidableEq, Repr

def Release.set (r : Release) (entries : List Entry) : SectionName → Release
  | .features => { r with features := entries }
  | .breaking => { r with breaking := entries }
  | .security => { r with security := entries }
  | .fixes => { r with fixes := entries }

/-! ## The loop -/

/-- The variables of `Parse`. -/
structure State where
  out : List Release
  cur : Option Release
  inSection : Option SectionName
  entries : List Entry
  seen : Nat
  bullets : Nat
  sectionLine : Nat
  /-- `pending`, where `pendingOpen`. -/
  pending : Option Text
  pendingLine : Nat
deriving DecidableEq, Repr

def State.start : State := ⟨[], none, none, [], 0, 0, 0, none, 0⟩

/-- A problem, at a line. -/
abbrev Failure := Nat × Problem

def flushBullet (s : State) : Except Failure State :=
  match s.pending with
  | none => .ok s
  | some text =>
    match parseEntry text with
    | .error p => .error (s.pendingLine, p)
    | .ok e => .ok { s with pending := none, bullets := s.bullets + 1, entries := s.entries ++ e.toList }

def flushSection (s : State) : Except Failure State :=
  match flushBullet s with
  | .error e => .error e
  | .ok s =>
    match s.cur, s.inSection with
    | some r, some name =>
      if s.bullets = 0 then .error (s.sectionLine, .emptySection r.version name.label)
      else .ok { s with cur := some (r.set s.entries name), inSection := none, entries := [], bullets := 0 }
    | _, _ => .ok { s with inSection := none, entries := [], bullets := 0 }

def flushRelease (atLine : Nat) (s : State) : Except Failure State :=
  match s.cur with
  | none => .ok s
  | some _ =>
    match flushSection s with
    | .error e => .error e
    | .ok s =>
      match s.cur with
      | none => .ok s
      | some r =>
        if s.seen ≠ sections.length then .error (atLine, .missingSections r.version s.seen)
        else .ok { s with out := s.out ++ [r], cur := none, seen := 0 }

/-- `listMarkerRe`. -/
def isListMarker : Text → Bool
  | b :: c :: t =>
    (b = 0x2D || b = 0x2A || b = 0x2B) && reSpace c ||
      b = 0x31 && (c = 0x2E || c = 0x29) && t.head?.any reSpace
  | _ => false

/-- An indented line under a bullet. -/
def continueBullet (s : State) (text : Text) (ln : Nat) (line : Text) : Except Failure State :=
  if isListMarker line then .error (ln, .nestedBullet line)
  else if (lit "### ").isPrefixOf line || (lit "**Update required").isPrefixOf line then
    .error (ln, .indentedHeading line)
  else if endsInServiceTags text && !onlyServiceTags line then .error (ln, .textAfterTags line)
  else .ok { s with pending := some (text ++ lit " " ++ line) }

/-- A line that begins with two hashes. -/
def releaseHeading (s : State) (ln : Nat) (line : Text) : Except Failure State :=
  match flushRelease ln s with
  | .error e => .error e
  | .ok s =>
    match parseVersion (line.drop 3) with
    | .error p => .error (ln, p)
    | .ok v =>
      match s.out.getLast? with
      | some above =>
        if above.version.compare v = .gt then .ok { s with cur := some ⟨v, none, [], [], [], []⟩ }
        else .error (ln, .notOlder v above.version)
      | none => .ok { s with cur := some ⟨v, none, [], [], [], []⟩ }

def sectionHeading (s : State) (ln : Nat) (line : Text) : Except Failure State :=
  match s.cur with
  | none => .error (ln, .sectionBeforeRelease line)
  | some r =>
    match flushSection s with
    | .error e => .error e
    | .ok s =>
      match sections[s.seen]? with
      | some name =>
        if line.drop 4 = name.label then
          .ok { s with inSection := some name, sectionLine := ln, seen := s.seen + 1 }
        else .error (ln, .wrongSection r.version (line.drop 4) name.label)
      | none => .error (ln, .wrongSection r.version (line.drop 4) (lit "nothing more"))

def requiredLine (s : State) (ln : Nat) (line : Text) : Except Failure State :=
  match s.cur with
  | none => .error (ln, .requiredBeforeRelease)
  | some r =>
    if s.inSection.isSome then .error (ln, .requiredInSection)
    else if r.required.isSome then .error (ln, .secondRequired r.version)
    else match parseRequired line r.version with
      | .error p => .error (ln, p)
      | .ok req => .ok { s with cur := some { r with required := some req } }

def bulletLine (s : State) (ln : Nat) (line : Text) : Except Failure State :=
  match s.inSection with
  | none => if s.cur = none then .ok s else .error (ln, .bulletOutsideSection)
  | some _ =>
    match flushBullet s with
    | .error e => .error e
    | .ok s => .ok { s with pending := some (line.drop 2), pendingLine := ln }

/-- A blank line, or a comment. -/
def isSkipped (raw : Text) : Bool := trimSpace raw = [] || (lit "<!--").isPrefixOf (trimSpace raw)

/-- A line that continues the bullet above it, if one is open. -/
def isIndented (raw : Text) : Bool := decide (raw ≠ trimSpace raw) && (lit " ").isPrefixOf raw

/-- One turn of the loop of `Parse`. -/
def State.step (s : State) (ln : Nat) (raw : Text) : Except Failure State :=
  let line := trimSpace raw
  if isSkipped raw then .ok s
  else match s.pending, isIndented raw with
    | some text, true => continueBullet s text ln line
    | _, _ =>
      if (lit "## ").isPrefixOf line then releaseHeading s ln line
      else if (lit "### ").isPrefixOf line then sectionHeading s ln line
      else if (lit "**Update required").isPrefixOf line then requiredLine s ln line
      else if (lit "- ").isPrefixOf line then bulletLine s ln line
      else match s.cur with
        | none => .ok s
        | some r =>
          if (lit "# ").isPrefixOf line then .error (ln, .titleInRelease r.version)
          else .error (ln, .unexpectedLine line r.version)

def State.run (s : State) (ln : Nat) : List Text → Except Failure State
  | [] => .ok s
  | raw :: rest =>
    match s.step ln raw with
    | .error e => .error e
    | .ok s => s.run (ln + 1) rest

/-- `strings.ReplaceAll(src, "\r\n", "\n")`. -/
def dropReturns : Text → Text
  | 0x0D :: 0x0A :: t => 0x0A :: dropReturns t
  | b :: t => b :: dropReturns t
  | [] => []

/-- The lines of the file. -/
def lines (src : Text) : List Text := (dropReturns src).splitOn 0x0A

/-- `Parse`. -/
def parse (src : Text) : Except Failure (List Release) :=
  match State.start.run 1 (lines src) with
  | .error e => .error e
  | .ok s =>
    match flushRelease (lines src).length s with
    | .error e => .error e
    | .ok s => .ok s.out

end Dylaris.Notes
