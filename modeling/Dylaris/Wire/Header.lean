import Dylaris.Library.BigEndian
import Dylaris.Library.Stream
import Dylaris.Library.Text

/-!
# The headers of the tunnel

A link authenticates with a token on a line of its own, and every stream begins with a header: a new
stream with the client's address, a resumed one with the position it has reached, a Beam stream with a
ticket.  What follows on the connection belongs to the tunnelled protocol, so a reader that takes a
byte too many breaks it.

A token is trimmed when it is read, so only one without white space at its ends comes back
(`not_headers_round_trip`).
-/

set_option autoImplicit false

namespace Dylaris.Header

open Bytes Stream List Text

def maxTokenLen : Nat := 4096

def streamTypeNew : UInt8 := 0x01

def streamTypeResume : UInt8 := 0x02

def streamTypeBeam : UInt8 := 0x03

def newline : UInt8 := 0x0A

/-- A write fails because the stream does, or because the ticket is too long for its length field. -/
inductive WriteError
  | stream
  | ticketTooLong (length : Nat)
deriving DecidableEq, Repr

/-- A read fails because the stream does, or ends; because there is no newline in the first 4096 bytes
of a token; or because of a stream type that is not known. -/
inductive HeaderError
  | stream (e : ReadError)
  | tokenTooLong
  | unknownType (t : UInt8)
deriving DecidableEq, Repr

/-- Writes one after another. -/
def writes (ps : List (List UInt8)) (w : Sink) : Option WriteError × Sink :=
  match w.writeAll ps with
  | (true, w) => (none, w)
  | (false, w) => (some .stream, w)

/-- A write behind another one, if that succeeds. -/
def thenWrite (f g : Sink → Option WriteError × Sink) (w : Sink) : Option WriteError × Sink :=
  match f w with
  | (some e, w) => (some e, w)
  | (none, w) => g w

/-! ## Tokens -/

/-- The loop of `ReadToken`, with what it has read so far: one byte at a time, up to the newline. -/
def readTokenFrom (s : Source) (buf : Text) : Except HeaderError Text × Source :=
  let got := (s.read 1).1
  if got = [newline] then (.ok buf, (s.read 1).2.2)
  else if got ≠ [] ∧ maxTokenLen < (buf ++ got).length then (.error .tokenTooLong, (s.read 1).2.2)
  else match _herr : (s.read 1).2.1 with
    | none => readTokenFrom (s.read 1).2.2 (buf ++ got)
    | some e =>
      if e = .eof ∧ buf ++ got ≠ [] then (.ok (buf ++ got), (s.read 1).2.2)
      else (.error (.stream e), (s.read 1).2.2)
termination_by s.size
decreasing_by exact Source.size_read_lt _herr

/-- `ReadToken`. -/
def readToken (s : Source) : Except HeaderError Text × Source :=
  ((readTokenFrom s []).1.map trimSpace, (readTokenFrom s []).2)

/-- `WriteToken`. -/
def writeToken (token : Text) : Sink → Option WriteError × Sink := writes [token ++ [newline]]

/-! ## Headers -/

/-- `WriteStreamHeaderNew`.  An address of more than 255 bytes is cut. -/
def writeStreamHeaderNew (sessionID : Block 16) (ip : Text) (port : UInt16) :
    Sink → Option WriteError × Sink :=
  let ip := if 255 < ip.length then ip.take 255 else ip
  writes [[streamTypeNew], sessionID.toList, bigEndian 1 ip.length, ip, bigEndian 2 port.toNat]

/-- `WriteStreamHeaderResume`. -/
def writeStreamHeaderResume (sessionID : Block 16) (bytesReceived : UInt64) :
    Sink → Option WriteError × Sink :=
  writes [[streamTypeResume], sessionID.toList, bigEndian 8 bytesReceived.toNat]

/-- `WriteBeamHeader`.  The length of the ticket is looked at behind the first write. -/
def writeBeamHeader (ticket : Text) : Sink → Option WriteError × Sink :=
  thenWrite (writes [[streamTypeBeam]]) fun w ↦
    if 65535 < ticket.length then (some (.ticketTooLong ticket.length), w)
    else writes [bigEndian 2 ticket.length, ticket] w

/-- What `ReadStreamHeader` returns. -/
structure StreamHeader where
  streamType : UInt8
  sessionID : Block 16
  ip : Text := []
  port : UInt16 := 0
  bytesReceived : UInt64 := 0
deriving DecidableEq

/-- Read so many bytes and go on with them. -/
def reading {α : Type} (n : Nat) (k : List UInt8 → Source → Except HeaderError α × Source)
    (s : Source) : Except HeaderError α × Source :=
  match s.readFull n with
  | (.ok bs, s) => k bs s
  | (.error e, s) => (.error (.stream e), s)

/-- `ReadStreamHeader`. -/
def readStreamHeader : Source → Except HeaderError StreamHeader × Source :=
  reading 1 fun typeBuf ↦ reading 16 fun session ↦
    let streamType := typeBuf.headD 0
    let sessionID := Block.copy 16 session
    if streamType = streamTypeNew then
      reading 1 fun ipLen ↦ reading (ofBigEndian ipLen) fun ip ↦ reading 2 fun port s ↦
        (.ok { streamType, sessionID, ip, port := UInt16.ofNat (ofBigEndian port) }, s)
    else if streamType = streamTypeResume then
      reading 8 fun received s ↦
        (.ok { streamType, sessionID, bytesReceived := UInt64.ofNat (ofBigEndian received) }, s)
    else fun s ↦ (.error (.unknownType streamType), s)

/-- `ReadBeamHeader`, behind the type byte. -/
def readBeamHeader : Source → Except HeaderError Text × Source :=
  reading 2 fun ticketLen ↦ reading (ofBigEndian ticketLen) fun ticket s ↦ (.ok ticket, s)

/-- A Beam stream: its caller has read the type byte. -/
def readBeam : Source → Except HeaderError (UInt8 × Text) × Source :=
  reading 1 fun typeBuf s ↦
    ((readBeamHeader s).1.map fun ticket ↦ (typeBuf.headD 0, ticket), (readBeamHeader s).2)

/-! ## Reading what was written -/

/-- From every stream that begins with these bytes, the reader returns the value and leaves what
follows them. -/
def Reads {α : Type} (read : Source → Except HeaderError α × Source) (written : List UInt8) (v : α) :
    Prop :=
  ∀ s following, s.bytes = written ++ following → ∃ s', read s = (.ok v, s') ∧ s'.bytes = following

theorem Reads.reading {α : Type} {front back : List UInt8} {n : Nat} {v : α}
    {k : List UInt8 → Source → Except HeaderError α × Source} (hn : front.length = n)
    (h : Reads (k front) back v) : Reads (reading n k) (front ++ back) v := by
  intro s following hs
  rw [append_assoc] at hs
  obtain ⟨s', hread, hrest⟩ := Source.readFull_eq hs
  obtain ⟨s'', hk, hfollowing⟩ := h s' following hrest
  refine ⟨s'', ?_, hfollowing⟩
  rw [Header.reading, ← hn, hread]
  exact hk

theorem Reads.done {α : Type} (v : α) : Reads (fun s ↦ (.ok v, s)) [] v :=
  fun s _ hs ↦ ⟨s, rfl, hs⟩

theorem readTokenFrom_newline {s : Source} (buf : Text) (h : (s.read 1).1 = [newline]) :
    readTokenFrom s buf = (.ok buf, (s.read 1).2.2) := by
  rw [readTokenFrom]
  exact if_pos h

theorem readTokenFrom_next {s : Source} {buf : Text} (hgot : (s.read 1).1 ≠ [newline])
    (hlen : (buf ++ (s.read 1).1).length ≤ maxTokenLen) (herr : (s.read 1).2.1 = none) :
    readTokenFrom s buf = readTokenFrom (s.read 1).2.2 (buf ++ (s.read 1).1) := by
  rw [readTokenFrom, if_neg hgot, if_neg (by omega)]
  split
  · rfl
  · rename_i e he
    rw [herr] at he
    cases he

theorem reads_tokenFrom {token : Text} (hline : newline ∉ token) {buf : Text}
    (hlen : (buf ++ token).length ≤ maxTokenLen) :
    Reads (readTokenFrom · buf) (token ++ [newline]) (buf ++ token) := by
  intro s
  -- Every round reads a byte or uses up an empty piece.
  induction hsize : s.size using Nat.strong_induction_on generalizing s token buf with
  | _ n ih =>
    subst hsize
    intro following hs
    dsimp only
    -- An empty piece changes nothing but the source.
    have hempty : (s.read 1).1 = [] → (s.read 1).2.1 = none →
        (s.read 1).2.2.bytes = (token ++ [newline]) ++ following →
        ∃ s', readTokenFrom s buf = (.ok (buf ++ token), s') ∧ s'.bytes = following := by
      intro hgot herr hrest
      have hbuf : (buf ++ (s.read 1).1).length ≤ maxTokenLen := by
        rw [length_append] at hlen
        rw [hgot, append_nil]
        omega
      rw [readTokenFrom_next (by simp [hgot]) hbuf herr, hgot, append_nil]
      exact ih _ (Source.size_read_lt herr) hline hlen _ rfl following hrest
    cases token with
    | nil =>
      rcases Source.read_one hs with ⟨hgot, hrest, -⟩ | ⟨hgot, hrest, herr⟩
      · exact ⟨_, by rw [readTokenFrom_newline buf hgot, append_nil], hrest⟩
      · exact hempty hgot herr hrest
    | cons b token =>
      rcases Source.read_one hs with ⟨hgot, hrest, herr⟩ | ⟨hgot, hrest, herr⟩
      · have hlen' : ((buf ++ [b]) ++ token).length ≤ maxTokenLen := by simpa using hlen
        have hb : newline ≠ b ∧ newline ∉ token := by simpa using hline
        have hbuf : (buf ++ (s.read 1).1).length ≤ maxTokenLen := by
          rw [length_append] at hlen'
          rw [hgot]
          omega
        have herr := herr (by simp)
        have hstep := readTokenFrom_next (by simp [hgot, hb.1.symm]) hbuf herr
        obtain ⟨s', hs', hfollowing⟩ :=
          ih _ (Source.size_read_lt herr) hb.2 hlen' _ rfl following hrest
        refine ⟨s', ?_, hfollowing⟩
        rw [hstep, hgot]
        simpa using hs'
      · exact hempty hgot herr hrest

/-- **A token is read as it was written, trimmed.** -/
theorem reads_token {token : Text} (hline : newline ∉ token) (hlen : token.length ≤ maxTokenLen) :
    Reads readToken (token ++ [newline]) token.trimSpace := by
  intro s following hs
  obtain ⟨s', hread, hrest⟩ :=
    (reads_tokenFrom hline hlen : Reads (readTokenFrom · []) _ _) s following hs
  refine ⟨s', ?_, hrest⟩
  rw [readToken, show readTokenFrom s [] = _ from hread]
  rfl

theorem reads_streamHeaderNew (sessionID : Block 16) {ip : Text} (hip : ip.length ≤ 255)
    (port : UInt16) :
    Reads readStreamHeader
      ([streamTypeNew] ++ (sessionID.toList ++ (bigEndian 1 ip.length ++
        (ip ++ (bigEndian 2 port.toNat ++ [])))))
      { streamType := streamTypeNew, sessionID, ip, port } := by
  have hlen : ofBigEndian (bigEndian 1 ip.length) = ip.length :=
    ofBigEndian_bigEndian_of_lt (by omega)
  have hport : UInt16.ofNat (ofBigEndian (bigEndian 2 port.toNat)) = port := by
    rw [ofBigEndian_bigEndian_of_lt port.toNat_lt, UInt16.ofNat_toNat]
  refine Reads.reading rfl (Reads.reading sessionID.toList_length ?_)
  simp only [headD_cons, if_pos, Block.copy_toList]
  refine Reads.reading (length_bigEndian _ _) (Reads.reading hlen.symm ?_)
  refine Reads.reading (length_bigEndian _ _) ?_
  rw [hport]
  exact Reads.done _

theorem reads_streamHeaderResume (sessionID : Block 16) (bytesReceived : UInt64) :
    Reads readStreamHeader
      ([streamTypeResume] ++ (sessionID.toList ++ (bigEndian 8 bytesReceived.toNat ++ [])))
      { streamType := streamTypeResume, sessionID, bytesReceived } := by
  have hreceived : UInt64.ofNat (ofBigEndian (bigEndian 8 bytesReceived.toNat)) = bytesReceived := by
    rw [ofBigEndian_bigEndian_of_lt bytesReceived.toNat_lt, UInt64.ofNat_toNat]
  refine Reads.reading rfl (Reads.reading sessionID.toList_length ?_)
  have hne : ¬ streamTypeResume = streamTypeNew := by decide
  simp only [headD_cons, if_neg hne, if_pos, Block.copy_toList]
  refine Reads.reading (length_bigEndian _ _) ?_
  rw [hreceived]
  exact Reads.done _

theorem reads_beam {ticket : Text} (hticket : ticket.length ≤ 65535) :
    Reads readBeam ([streamTypeBeam] ++ (bigEndian 2 ticket.length ++ (ticket ++ [])))
      (streamTypeBeam, ticket) := by
  have hlen : ofBigEndian (bigEndian 2 ticket.length) = ticket.length :=
    ofBigEndian_bigEndian_of_lt (by omega)
  have hread : Reads readBeamHeader (bigEndian 2 ticket.length ++ (ticket ++ [])) ticket :=
    Reads.reading (length_bigEndian _ _) (Reads.reading hlen.symm (Reads.done _))
  refine Reads.reading rfl fun s following hs ↦ ?_
  obtain ⟨s', hs', hrest⟩ := hread s following hs
  exact ⟨s', by rw [hs']; rfl, hrest⟩

/-! ## Writing it -/

/-- A write that leaves these bytes on the stream, or fails with the beginning of them there. -/
def Writes (write : Sink → Option WriteError × Sink) (out : List UInt8) : Prop :=
  ∀ w, ((write w).1 = none ∧ (write w).2.bytes = w.bytes ++ out) ∨
    ((write w).1 = some .stream ∧ ∃ part, part <+: out ∧ (write w).2.bytes = w.bytes ++ part)

theorem writes_flatten (ps : List (List UInt8)) : Writes (writes ps) ps.flatten := by
  intro w
  have hall := w.writeAll_bytes ps
  rw [writes]
  rcases hw : w.writeAll ps with ⟨ok, w'⟩
  rw [hw] at hall
  rcases hall with ⟨rfl, hbytes⟩ | ⟨rfl, part, hpart, hbytes⟩
  · exact .inl ⟨rfl, hbytes⟩
  · exact .inr ⟨rfl, part, hpart, hbytes⟩

theorem Writes.thenWrite {f g : Sink → Option WriteError × Sink} {out out' : List UInt8}
    (hf : Writes f out) (hg : Writes g out') : Writes (thenWrite f g) (out ++ out') := by
  intro w
  have hfw := hf w
  rw [Header.thenWrite]
  rcases hw : f w with ⟨err, w'⟩
  rw [hw] at hfw
  rcases hfw with ⟨rfl, hbytes⟩ | ⟨rfl, part, hpart, hbytes⟩
  · have hbytes : w'.bytes = w.bytes ++ out := hbytes
    rcases hg w' with ⟨hok, hrest⟩ | ⟨hok, part, hpart, hrest⟩
    · exact .inl ⟨hok, by rw [← append_assoc, ← hbytes, ← hrest]⟩
    · refine .inr ⟨hok, out ++ part, (prefix_append_right_inj out).mpr hpart, ?_⟩
      rw [← append_assoc, ← hbytes, ← hrest]
  · exact .inr ⟨rfl, part, hpart.trans (prefix_append _ _), hbytes⟩

theorem writes_streamHeaderNew (sessionID : Block 16) {ip : Text} (hip : ip.length ≤ 255)
    (port : UInt16) : Writes (writeStreamHeaderNew sessionID ip port)
      ([streamTypeNew] ++ (sessionID.toList ++ (bigEndian 1 ip.length ++
        (ip ++ (bigEndian 2 port.toNat ++ []))))) := by
  have hcut : ¬ 255 < ip.length := by omega
  simp only [writeStreamHeaderNew, if_neg hcut]
  exact writes_flatten _

theorem writes_beamHeader {ticket : Text} (hticket : ticket.length ≤ 65535) :
    Writes (writeBeamHeader ticket)
      ([streamTypeBeam] ++ (bigEndian 2 ticket.length ++ (ticket ++ []))) := by
  have hlong : ¬ 65535 < ticket.length := by omega
  simp only [writeBeamHeader, if_neg hlong]
  exact (writes_flatten [[streamTypeBeam]]).thenWrite (writes_flatten _)

/-! ## The round trip -/

/-- What a write that succeeds has put on the stream is read back as the value, and taken exactly; a
write that fails has put there what `failed` allows. -/
def RoundTrips {α : Type} (failed : List UInt8 → Prop) (write : Sink → Option WriteError × Sink)
    (read : Source → Except HeaderError α × Source) (v : α) : Prop :=
  ∀ w, ∃ out, (write w).2.bytes = w.bytes ++ out ∧
    ((write w).1 = none → Reads read out v) ∧ ((write w).1 ≠ none → failed out)

/-- The beginning of what the write puts on a stream that does not fail. -/
def Begins (write : Sink → Option WriteError × Sink) (part : List UInt8) : Prop :=
  ∀ w, (write w).1 = none → w.bytes ++ part <+: (write w).2.bytes

theorem RoundTrips.intro {α : Type} {write : Sink → Option WriteError × Sink}
    {read : Source → Except HeaderError α × Source} {v : α} {out : List UInt8}
    (hwrite : Writes write out) (hread : Reads read out v) :
    RoundTrips (Begins write) write read v := by
  intro w
  rcases hwrite w with ⟨hok, hbytes⟩ | ⟨hfailed, part, hpart, hbytes⟩
  · exact ⟨out, hbytes, fun _ ↦ hread, fun hne ↦ absurd hok hne⟩
  · refine ⟨part, hbytes, fun hok ↦ ?_, fun _ w' hok ↦ ?_⟩
    · rw [hfailed] at hok
      cases hok
    rcases hwrite w' with ⟨-, hall⟩ | ⟨hfailed', -⟩
    · rw [hall]
      exact (prefix_append_right_inj w'.bytes).mpr hpart
    · rw [hfailed'] at hok
      cases hok

end Dylaris.Header
