import Dylaris.Library.BigEndian

/-!
# The voice frame

The UDP frame between the voice relay and the node's forwarder: a header of twenty bytes and, for each
of the five types, a body of its own.  Two repositories compile their own copy of it, so the layout is
a contract.

The codec is a bijection on the frames it accepts, `voice_codec_bijective`: what an `Append` function
puts behind a buffer is read back as the fields it was given, and what `parse` accepts is what the
`Append` function of its type makes of the fields.  The keyed digest is a parameter, `hmac`, with the
32 bytes of HMAC-SHA256.
-/

set_option autoImplicit false

namespace Dylaris.Voice

open Bytes List Option

def version : UInt8 := 2

def typeReg : UInt8 := 1

def typeRegAck : UInt8 := 2

/-- Relay to node. -/
def typeDataUp : UInt8 := 3

/-- Node to relay. -/
def typeDataDown : UInt8 := 4

def typeClose : UInt8 := 5

def headerLen : Nat := 20

def regLen : Nat := 52

def regAckLen : Nat := 28

def dataOverhead : Nat := 24

def closeLen : Nat := 24

def magic0 : UInt8 := 0xD7

/-- `V`. -/
def magic1 : UInt8 := 0x56

def regMACOffset : Nat := 36

def macLen : Nat := 16

inductive Err
  | short | magic | version | type | length
deriving DecidableEq, Repr

def Err.text : Err → String
  | .short => "voicewire: frame shorter than header"
  | .magic => "voicewire: bad magic"
  | .version => "voicewire: unknown version"
  | .type => "voicewire: unknown type"
  | .length => "voicewire: wrong length for type"

/-- A parsed frame.  Only the fields of its type are set. -/
structure Frame where
  type : UInt8
  server : Block 16
  unixMs : UInt64 := 0
  nonce : Block 8 := Block.zero 8
  mac : Block 16 := Block.zero 16
  session : UInt32 := 0
  payload : List UInt8 := []
deriving DecidableEq

/-! ## Writing -/

def appendHeader (dst : List UInt8) (typ : UInt8) (server : Block 16) : List UInt8 :=
  dst ++ [magic0, magic1, version, typ] ++ server.toList

/-- The keyed digest of a REG, cut to the length of its field. -/
def regMAC (hmac : List UInt8 → List UInt8 → Block 32) (key signed : List UInt8) : List UInt8 :=
  (hmac key signed).toList.take macLen

/-- A REG up to its MAC. -/
def appendSigned (dst : List UInt8) (server : Block 16) (unixMs : UInt64) (nonce : Block 8) :
    List UInt8 :=
  appendHeader dst typeReg server ++ bigEndian 8 unixMs.toNat ++ nonce.toList

/-- `AppendReg`: the MAC is over the bytes of this frame, not of what is before it in the buffer. -/
def appendReg (hmac : List UInt8 → List UInt8 → Block 32) (dst : List UInt8) (server : Block 16)
    (unixMs : UInt64) (nonce : Block 8) (key : List UInt8) : List UInt8 :=
  let out := appendSigned dst server unixMs nonce
  out ++ regMAC hmac key ((out.drop dst.length).take regMACOffset)

def appendRegAck (dst : List UInt8) (server : Block 16) (unixMs : UInt64) : List UInt8 :=
  appendHeader dst typeRegAck server ++ bigEndian 8 unixMs.toNat

/-- `AppendData`, which panics on a type that is not DATA. -/
def appendData (dst : List UInt8) (typ : UInt8) (server : Block 16) (session : UInt32)
    (payload : List UInt8) : Option (List UInt8) :=
  if typ ≠ typeDataUp ∧ typ ≠ typeDataDown then none
  else some (appendHeader dst typ server ++ bigEndian 4 session.toNat ++ payload)

def appendClose (dst : List UInt8) (server : Block 16) (session : UInt32) : List UInt8 :=
  appendHeader dst typeClose server ++ bigEndian 4 session.toNat

/-! ## Reading -/

/-- A slice of the buffer. -/
def slice (b : List UInt8) (lo hi : Nat) : List UInt8 := (b.take hi).drop lo

/-- `Parse`. -/
def parse (b : List UInt8) : Except Err Frame :=
  if b.length < headerLen then .error .short
  else if b[0]? ≠ some magic0 ∨ b[1]? ≠ some magic1 then .error .magic
  else if b[2]? ≠ some version then .error .version
  else
    let typ := (b[3]?).getD 0
    let f : Frame := { type := typ, server := Block.copy 16 (slice b 4 headerLen) }
    if typ = typeReg then
      if b.length ≠ regLen then .error .length
      else .ok { f with
        unixMs := UInt64.ofNat (ofBigEndian (slice b 20 28))
        nonce := Block.copy 8 (slice b 28 36)
        mac := Block.copy 16 (slice b regMACOffset regLen) }
    else if typ = typeRegAck then
      if b.length ≠ regAckLen then .error .length
      else .ok { f with unixMs := UInt64.ofNat (ofBigEndian (slice b 20 28)) }
    else if typ = typeDataUp ∨ typ = typeDataDown then
      if b.length < dataOverhead then .error .length
      else .ok { f with
        session := UInt32.ofNat (ofBigEndian (slice b 20 24))
        payload := b.drop dataOverhead }
    else if typ = typeClose then
      if b.length ≠ closeLen then .error .length
      else .ok { f with session := UInt32.ofNat (ofBigEndian (slice b 20 24)) }
    else .error .type

/-- `VerifyReg`. -/
def verifyReg (hmac : List UInt8 → List UInt8 → Block 32) (raw key : List UInt8) : Bool :=
  match parse raw with
  | .error _ => false
  | .ok f => if f.type ≠ typeReg then false
    else f.mac.toList = regMAC hmac key (raw.take regMACOffset)

/-! ## The header

Both directions go through the body: the bytes behind the header, read by themselves. -/

/-- What `parse` makes of the bytes behind a header. -/
def parseBody (typ : UInt8) (server : Block 16) (body : List UInt8) : Except Err Frame :=
  if typ = typeReg then
    if body.length ≠ 32 then .error .length
    else .ok {
      type := typ, server := server
      unixMs := UInt64.ofNat (ofBigEndian (body.take 8))
      nonce := Block.copy 8 (slice body 8 16)
      mac := Block.copy 16 (slice body 16 32) }
  else if typ = typeRegAck then
    if body.length ≠ 8 then .error .length
    else .ok { type := typ, server := server, unixMs := UInt64.ofNat (ofBigEndian (body.take 8)) }
  else if typ = typeDataUp ∨ typ = typeDataDown then
    if body.length < 4 then .error .length
    else .ok {
      type := typ, server := server
      session := UInt32.ofNat (ofBigEndian (body.take 4)), payload := body.drop 4 }
  else if typ = typeClose then
    if body.length ≠ 4 then .error .length
    else .ok { type := typ, server := server, session := UInt32.ofNat (ofBigEndian (body.take 4)) }
  else .error .type

theorem length_appendHeader (typ : UInt8) (server : Block 16) :
    (appendHeader [] typ server).length = headerLen := by
  simp [appendHeader, headerLen]

theorem appendHeader_append (dst : List UInt8) (typ : UInt8) (server : Block 16) :
    appendHeader dst typ server = dst ++ appendHeader [] typ server := by
  simp [appendHeader]

theorem take_append_slice (b : List UInt8) {lo hi : Nat} (h : lo ≤ hi) :
    b.take lo ++ slice b lo hi = b.take hi := by
  have htake : (b.take hi).take lo = b.take lo := by rw [take_take, min_eq_left h]
  rw [slice, ← htake, take_append_drop]

/-- A slice behind the header is a slice of the body. -/
theorem slice_header (typ : UInt8) (server : Block 16) (body : List UInt8) (lo hi : Nat) :
    slice (appendHeader [] typ server ++ body) (headerLen + lo) (headerLen + hi) = slice body lo hi := by
  have hlen := length_appendHeader typ server
  rw [slice, ← hlen, take_length_add_append, drop_length_add_append, slice]

theorem slice_server (typ : UInt8) (server : Block 16) (body : List UInt8) :
    slice (appendHeader [] typ server ++ body) 4 headerLen = server.toList := by
  rw [slice, take_left' (length_appendHeader typ server)]
  rfl

theorem parse_header (typ : UInt8) (server : Block 16) (body : List UInt8) :
    parse (appendHeader [] typ server ++ body) = parseBody typ server body := by
  have hslice := slice_header typ server body
  have hserver := slice_server typ server body
  set buf := appendHeader [] typ server ++ body with hbuf
  have hlen : buf.length = 20 + body.length := by rw [hbuf, length_append, length_appendHeader, headerLen]
  have htime : slice buf 20 28 = body.take 8 := hslice 0 8
  have hnonce : slice buf 28 36 = slice body 8 16 := hslice 8 16
  have hsession : slice buf 20 24 = body.take 4 := hslice 0 4
  have hpayload : buf.drop dataOverhead = body.drop 4 := by
    rw [show dataOverhead = (appendHeader [] typ server).length + 4 by
      rw [length_appendHeader]; rfl, drop_length_add_append]
  have hmac : slice buf regMACOffset regLen = slice body 16 32 := hslice 16 32
  have htyp : (buf[3]?).getD 0 = typ := by simp [hbuf, appendHeader]
  have hreg : 20 + body.length ≠ regLen ↔ body.length ≠ 32 := by rw [regLen]; omega
  have hack : 20 + body.length ≠ regAckLen ↔ body.length ≠ 8 := by rw [regAckLen]; omega
  have hdata : 20 + body.length < dataOverhead ↔ body.length < 4 := by rw [dataOverhead]; omega
  have hclose : 20 + body.length ≠ closeLen ↔ body.length ≠ 4 := by rw [closeLen]; omega
  rw [parse, if_neg (by rw [hlen, headerLen]; omega), if_neg (by simp [hbuf, appendHeader]),
    if_neg (by simp [hbuf, appendHeader])]
  simp only [htyp, hserver, Block.copy_toList, hlen, htime, hnonce, hsession, hpayload, hmac, hreg,
    hack, hdata, hclose, parseBody]

variable {b : List UInt8} {f : Frame}

/-- What is accepted begins with a header. -/
theorem eq_header_of_parse (h : parse b = .ok f) :
    b = appendHeader [] f.type f.server ++ b.drop headerLen := by
  -- Whatever the type, the first two fields are the ones read from the header.
  have hfields : ¬ b.length < headerLen ∧ ¬ (b[0]? ≠ some magic0 ∨ b[1]? ≠ some magic1) ∧
      ¬ b[2]? ≠ some version ∧ f.type = (b[3]?).getD 0 ∧
      f.server = Block.copy 16 (slice b 4 headerLen) := by
    revert h
    fun_cases parse b <;> rintro ⟨⟩ <;> exact ⟨‹_›, ‹_›, ‹_›, rfl, rfl⟩
  obtain ⟨hlen, hmagic, hversion, htype, hcopied⟩ := hfields
  rw [not_or, not_not, not_not] at hmagic
  rw [not_not] at hversion
  have hserver : f.server.toList = slice b 4 headerLen := by
    rw [hcopied]
    refine Block.toList_copy ?_
    simp only [slice, length_drop, length_take, headerLen] at hlen ⊢
    omega
  match b, hlen with
  | b₀ :: b₁ :: b₂ :: b₃ :: rest, _ =>
    obtain rfl : b₀ = magic0 := Option.some.inj hmagic.1
    obtain rfl : b₁ = magic1 := Option.some.inj hmagic.2
    obtain rfl : b₂ = version := Option.some.inj hversion
    obtain rfl : f.type = b₃ := htype
    have hrest : f.server.toList = rest.take 16 := hserver
    simp [appendHeader, hrest, headerLen]

theorem parseBody_of_parse (h : parse b = .ok f) :
    parseBody f.type f.server (b.drop headerLen) = .ok f := by
  rw [← parse_header, ← eq_header_of_parse h, h]

/-! ## The bodies -/

theorem uint64_ofBigEndian (n : UInt64) : UInt64.ofNat (ofBigEndian (bigEndian 8 n.toNat)) = n := by
  rw [ofBigEndian_bigEndian_of_lt n.toNat_lt, UInt64.ofNat_toNat]

theorem uint32_ofBigEndian (n : UInt32) : UInt32.ofNat (ofBigEndian (bigEndian 4 n.toNat)) = n := by
  rw [ofBigEndian_bigEndian_of_lt n.toNat_lt, UInt32.ofNat_toNat]

theorem bigEndian_uint64 {bs : List UInt8} (h : bs.length = 8) :
    bigEndian 8 (UInt64.ofNat (ofBigEndian bs)).toNat = bs := by
  have hlt : ofBigEndian bs < 2 ^ 64 := by
    have hlt := ofBigEndian_lt bs
    rwa [h] at hlt
  rw [UInt64.toNat_ofNat', Nat.mod_eq_of_lt hlt, ← h, bigEndian_ofBigEndian]

theorem bigEndian_uint32 {bs : List UInt8} (h : bs.length = 4) :
    bigEndian 4 (UInt32.ofNat (ofBigEndian bs)).toNat = bs := by
  have hlt : ofBigEndian bs < 2 ^ 32 := by
    have hlt := ofBigEndian_lt bs
    rwa [h] at hlt
  rw [UInt32.toNat_ofNat', Nat.mod_eq_of_lt hlt, ← h, bigEndian_ofBigEndian]

theorem parseBody_reg (server : Block 16) (unixMs : UInt64) (nonce : Block 8) (mac : Block 16) :
    parseBody typeReg server (bigEndian 8 unixMs.toNat ++ nonce.toList ++ mac.toList)
      = .ok { type := typeReg, server, unixMs, nonce, mac } := by
  set time := bigEndian 8 unixMs.toNat
  have htime : time.length = 8 := length_bigEndian _ _
  have hfront : (time ++ nonce.toList).length = 16 := by simp [htime]
  have hlen : (time ++ nonce.toList ++ mac.toList).length = 32 := by simp [htime]
  have hnonce : slice (time ++ nonce.toList ++ mac.toList) 8 16 = nonce.toList := by
    rw [slice, take_left' hfront, drop_left' htime]
  have hmac : slice (time ++ nonce.toList ++ mac.toList) 16 32 = mac.toList := by
    rw [slice, take_of_length_le hlen.le, drop_left' hfront]
  rw [parseBody, if_pos rfl, if_neg (not_not.mpr hlen), hnonce, hmac, append_assoc,
    take_left' htime, uint64_ofBigEndian, Block.copy_toList, Block.copy_toList]

theorem parseBody_regAck (server : Block 16) (unixMs : UInt64) :
    parseBody typeRegAck server (bigEndian 8 unixMs.toNat)
      = .ok { type := typeRegAck, server, unixMs } := by
  have hlen : (bigEndian 8 unixMs.toNat).length = 8 := length_bigEndian _ _
  rw [parseBody, if_neg (by decide), if_pos rfl, if_neg (not_not.mpr hlen),
    take_of_length_le hlen.le, uint64_ofBigEndian]

variable {typ : UInt8}

theorem parseBody_data (htyp : typ = typeDataUp ∨ typ = typeDataDown)
    (server : Block 16) (session : UInt32) (payload : List UInt8) :
    parseBody typ server (bigEndian 4 session.toNat ++ payload)
      = .ok { type := typ, server, session, payload } := by
  have hlen : (bigEndian 4 session.toNat).length = 4 := length_bigEndian _ _
  have hshort : ¬ (bigEndian 4 session.toNat ++ payload).length < 4 := by
    rw [length_append, hlen]
    omega
  have hreg : typ ≠ typeReg ∧ typ ≠ typeRegAck := by
    rcases htyp with rfl | rfl <;> decide
  rw [parseBody, if_neg hreg.1, if_neg hreg.2, if_pos htyp, if_neg hshort, take_left' hlen,
    drop_left' hlen, uint32_ofBigEndian]

theorem parseBody_close (server : Block 16) (session : UInt32) :
    parseBody typeClose server (bigEndian 4 session.toNat)
      = .ok { type := typeClose, server, session } := by
  have hlen : (bigEndian 4 session.toNat).length = 4 := length_bigEndian _ _
  rw [parseBody, if_neg (by decide), if_neg (by decide), if_neg (by decide), if_pos rfl,
    if_neg (not_not.mpr hlen), take_of_length_le hlen.le, uint32_ofBigEndian]

/-- The body that a frame of its type has. -/
def Frame.body (f : Frame) : List UInt8 :=
  if f.type = typeReg then bigEndian 8 f.unixMs.toNat ++ f.nonce.toList ++ f.mac.toList
  else if f.type = typeRegAck then bigEndian 8 f.unixMs.toNat
  else if f.type = typeClose then bigEndian 4 f.session.toNat
  else bigEndian 4 f.session.toNat ++ f.payload

/-- What is accepted behind a header is the body of the frame. -/
theorem eq_body_of_parseBody {server : Block 16} {body : List UInt8}
    (h : parseBody typ server body = .ok f) : body = f.body := by
  revert h
  fun_cases parseBody typ server body <;> rintro ⟨⟩
  next htyp hlen =>
    rw [not_not] at hlen
    have htime : (body.take 8).length = 8 := by simp [hlen]
    have hnonce : (slice body 8 16).length = 8 := by simp [slice, hlen]
    have hmac : (slice body 16 32).length = 16 := by simp [slice, hlen]
    rw [Frame.body, if_pos htyp, bigEndian_uint64 htime, Block.toList_copy hnonce,
      Block.toList_copy hmac, take_append_slice body (by omega), take_append_slice body (by omega),
      take_of_length_le hlen.le]
  next hreg htyp hlen =>
    rw [not_not] at hlen
    rw [Frame.body, if_neg hreg, if_pos htyp, take_of_length_le hlen.le, bigEndian_uint64 hlen]
  next hreg hack htyp hlen =>
    have hclose : typ ≠ typeClose := by rcases htyp with rfl | rfl <;> decide
    have hsession : (body.take 4).length = 4 := by
      rw [length_take]
      omega
    rw [Frame.body, if_neg hreg, if_neg hack, if_neg hclose, bigEndian_uint32 hsession,
      take_append_drop]
  next hreg hack _ htyp hlen =>
    rw [not_not] at hlen
    rw [Frame.body, if_neg hreg, if_neg hack, if_pos htyp, take_of_length_le hlen.le,
      bigEndian_uint32 hlen]

/-! ## The codec -/

/-- A buffer with one frame behind it. -/
def Adds (dst out : List UInt8) (f : Frame) : Prop :=
  out.take dst.length = dst ∧ parse (out.drop dst.length) = .ok f

/-- What the `Append` function of a frame's type makes of its fields; a REG keeps the MAC it has. -/
def Frame.append (f : Frame) (dst : List UInt8) : Option (List UInt8) :=
  if f.type = typeReg then some (appendSigned dst f.server f.unixMs f.nonce ++ f.mac.toList)
  else if f.type = typeRegAck then some (appendRegAck dst f.server f.unixMs)
  else if f.type = typeClose then some (appendClose dst f.server f.session)
  else appendData dst f.type f.server f.session f.payload

/-- A header and a body that reads as a frame, behind any buffer. -/
theorem adds_of_parseBody {dst out body : List UInt8} {server : Block 16}
    (hout : out = dst ++ (appendHeader [] typ server ++ body))
    (h : parseBody typ server body = .ok f) : Adds dst out f := by
  rw [Adds, hout, take_left, drop_left, parse_header]
  exact ⟨rfl, h⟩

theorem length_regMAC (hmac : List UInt8 → List UInt8 → Block 32) (key signed : List UInt8) :
    (regMAC hmac key signed).length = 16 := by
  simp [regMAC, macLen]

theorem appendSigned_append (dst : List UInt8) (server : Block 16) (unixMs : UInt64)
    (nonce : Block 8) : appendSigned dst server unixMs nonce
      = dst ++ (appendHeader [] typeReg server ++ (bigEndian 8 unixMs.toNat ++ nonce.toList)) := by
  rw [appendSigned, appendHeader_append]
  simp

theorem length_appendSigned (server : Block 16) (unixMs : UInt64) (nonce : Block 8) :
    (appendSigned [] server unixMs nonce).length = regMACOffset := by
  simp [appendSigned, length_appendHeader, headerLen, regMACOffset]

/-- A REG is its signed bytes and their digest, behind any buffer. -/
theorem appendReg_eq (hmac : List UInt8 → List UInt8 → Block 32) (dst : List UInt8)
    (server : Block 16) (unixMs : UInt64) (nonce : Block 8) (key : List UInt8) :
    appendReg hmac dst server unixMs nonce key = dst ++ (appendSigned [] server unixMs nonce ++
      regMAC hmac key (appendSigned [] server unixMs nonce)) := by
  have hsigned : appendSigned dst server unixMs nonce = dst ++ appendSigned [] server unixMs nonce := by
    rw [appendSigned_append dst, appendSigned_append [], nil_append]
  simp only [appendReg]
  rw [hsigned, drop_left, take_of_length_le (length_appendSigned ..).le, append_assoc]

theorem adds_appendReg (hmac : List UInt8 → List UInt8 → Block 32) (dst : List UInt8)
    (server : Block 16) (unixMs : UInt64) (nonce : Block 8) (key : List UInt8) :
    Adds dst (appendReg hmac dst server unixMs nonce key)
      { type := typeReg, server, unixMs, nonce
        mac := Block.copy 16 (regMAC hmac key (appendSigned [] server unixMs nonce)) } := by
  have hmac := Block.toList_copy (length_regMAC hmac key (appendSigned [] server unixMs nonce))
  refine adds_of_parseBody ?_ (parseBody_reg server unixMs nonce _)
  rw [appendReg_eq, hmac, appendSigned_append [], nil_append]
  simp

theorem append_of_parse (h : parse b = .ok f) (dst : List UInt8) :
    f.append dst = some (dst ++ b) := by
  have hbody := parseBody_of_parse h
  have hb : b = appendHeader [] f.type f.server ++ f.body := by
    rw [← eq_body_of_parseBody hbody]
    exact eq_header_of_parse h
  rw [Frame.body] at hb
  rw [Frame.append]
  split
  · rename_i htyp
    rw [if_pos htyp, htyp] at hb
    rw [hb, appendSigned_append]
    simp
  rename_i hreg
  rw [if_neg hreg] at hb
  split
  · rename_i htyp
    rw [if_pos htyp, htyp] at hb
    rw [hb, appendRegAck, appendHeader_append, append_assoc]
  rename_i hack
  rw [if_neg hack] at hb
  split
  · rename_i htyp
    rw [if_pos htyp, htyp] at hb
    rw [hb, appendClose, appendHeader_append, append_assoc]
  rename_i hclose
  rw [if_neg hclose] at hb
  have hdata : f.type = typeDataUp ∨ f.type = typeDataDown := by
    by_contra hne
    rw [parseBody, if_neg hreg, if_neg hack, if_neg hne, if_neg hclose] at hbody
    cases hbody
  rw [appendData, if_neg (by tauto), appendHeader_append, hb]
  simp

/-- The MAC of a REG is its last bytes. -/
theorem drop_of_parse_reg {raw : List UInt8} (h : parse raw = .ok f)
    (htyp : f.type = typeReg) : raw.drop regMACOffset = f.mac.toList := by
  have hraw := append_of_parse h []
  rw [Frame.append, if_pos htyp, nil_append, some_inj] at hraw
  rw [← hraw, drop_left' (length_appendSigned ..)]

theorem verifyReg_iff (hmac : List UInt8 → List UInt8 → Block 32) (raw key : List UInt8) :
    verifyReg hmac raw key = true ↔ (∃ f, parse raw = .ok f ∧ f.type = typeReg) ∧
      raw.drop regMACOffset = regMAC hmac key (raw.take regMACOffset) := by
  rw [verifyReg]
  split
  · rename_i e h
    simp [h]
  rename_i f h
  by_cases htyp : f.type = typeReg
  · rw [drop_of_parse_reg h htyp, if_neg (not_not.mpr htyp), decide_eq_true_eq]
    exact ⟨fun hmac ↦ ⟨⟨f, h, htyp⟩, hmac⟩, fun hmac ↦ hmac.2⟩
  · simp [h, htyp]

end Dylaris.Voice
