import Dylaris.RedisAcl.Rules

/-!
# The rights of two nodes are apart

A node's rights are assembled from a dozen namespaces with wildcards over identifiers.  What they
reach is said once, for every principal of the node and for keys and channels alike: `Touches` has a
case for a name with the node's token in one of the node's namespaces, one for a name of a server on the
node, one for the upload counter of a user, and one for the Link's registration.

`namedAfter` is the node a name belongs to: the first word of it that has the form of a token, unless
the name is a server's or a user's.  That covers every namespace there is, the granted ones and the
others.  `ServerKey` lists the names that belong to a server.
-/

set_option autoImplicit false

open Text Glob

namespace Dylaris.RedisAcl

open List Option

/-! ## Whose a name is -/

/-- The words of a name, between the colons. -/
def words (key : Text) : List Text := key.splitOn 0x3A

/-- Where the names of servers are. -/
def serverSpace : Text := lit "dylaris:server:"

/-- Where the upload counters of users are. -/
def dailySpace : Text := lit "dylaris:beam:daily:"

/-- The node a key or a channel is named after. -/
def namedAfter (key : Text) : Option Text :=
  if serverSpace <+: key ∨ dailySpace <+: key then none else (words key).find? isToken

/-- A key or a channel of a server: anything in its own space, its access stamp, and the plan and the
progress of its migration. -/
def ServerKey (u : ServerId) (key : Text) : Prop :=
  serverSpace ++ u.text ++ lit ":" <+: key ∨ key = accessEpochPrefix ++ u.text ∨
    ∃ leaf ∈ [lit "orchestration", lit "status"],
      key = lit "dylaris:migration:" ++ u.text ++ lit ":" ++ leaf

/-! ## Bytes of identifiers -/

/-- A byte that is neither special in a pattern nor a separator. -/
def WordByte (b : UInt8) : Prop := Plain b ∧ b ≠ 0x3A ∧ b ≠ 0x20

instance (b : UInt8) : Decidable (WordByte b) := inferInstanceAs (Decidable (_ ∧ _))

variable {t w : Text}

/-- A text over an alphabet that leaves the six bytes out is a word. -/
theorem wordByte_of_all {p : UInt8 → Bool} (ht : t.all p = true)
    (h : [0x2A, 0x3F, 0x5C, 0x5B, 0x3A, 0x20].any p = false) : ∀ b ∈ t, WordByte b := by
  intro b hb
  have hne : ∀ c : UInt8, p c = false → b ≠ c := by
    rintro c hc rfl
    simp [all_eq_true.mp ht b hb] at hc
  simp only [any_cons, any_nil, Bool.or_false, Bool.or_eq_false_iff] at h
  obtain ⟨h1, h2, h3, h4, h5, h6⟩ := h
  exact ⟨⟨hne _ h1, hne _ h2, hne _ h3, hne _ h4⟩, hne _ h5, hne _ h6⟩

theorem wordByte_of_isToken (h : isToken t) : ∀ b ∈ t, WordByte b := by
  rw [isToken, Bool.and_eq_true] at h
  exact wordByte_of_all h.2 (by decide)

theorem ServerId.wordByte (u : ServerId) : ∀ b ∈ u.text, WordByte b := by
  have h := u.valid
  rw [isServerUUID, Bool.and_eq_true] at h
  exact wordByte_of_all h.2 (by decide)

theorem Username.wordByte (u : Username) : ∀ b ∈ u.text, WordByte b := by
  have h := u.valid
  rw [isUsername, Bool.and_eq_true] at h
  exact wordByte_of_all h.2 (by decide)

theorem hexDigit_wordByte {n : UInt8} (h : n < 16) : WordByte (hexDigit n) := by
  have hall : ∀ m < 16, WordByte (hexDigit (UInt8.ofNat m)) := by decide
  have hn : n = UInt8.ofNat n.toNat := by simp
  rw [hn]
  exact hall n.toNat (by simpa using UInt8.lt_iff_toNat_lt.mp h)

theorem hexEncode_wordByte (t : Text) : ∀ b ∈ hexEncode t, WordByte b := by
  intro b hb
  obtain ⟨c, -, hc⟩ := mem_flatMap.mp hb
  rcases mem_pair.mp hc with rfl | rfl
  · refine hexDigit_wordByte (UInt8.lt_iff_toNat_lt.mpr ?_)
    rw [UInt8.toNat_div]
    have := c.toNat_lt
    simp only [UInt8.reduceToNat]
    omega
  · refine hexDigit_wordByte (UInt8.lt_iff_toNat_lt.mpr ?_)
    rw [UInt8.toNat_mod]
    simp only [UInt8.reduceToNat]
    omega

theorem length_hexEncode (t : Text) : (hexEncode t).length = 2 * t.length := by
  induction t with
  | nil => rfl
  | cons b t ih =>
    simp only [hexEncode, flatMap_cons, length_append, length_cons,
      length_nil] at ih ⊢
    omega

/-! ## Words -/

theorem splitOn_append_cons {sep : UInt8} (m t : Text) :
    (m ++ sep :: t).splitOn sep = m.splitOn sep ++ t.splitOn sep :=
  splitOnP_append_cons m t (by simp)

theorem splitOn_of_not_mem {sep : UInt8} (h : sep ∉ w) : w.splitOn sep = [w] :=
  splitOnP_eq_singleton fun b hb ↦ by
    simpa using fun hbs : b = sep ↦ h (hbs ▸ hb)

theorem colon_not_mem (h : ∀ b ∈ w, WordByte b) : 0x3A ∉ w := fun hc ↦ (h _ hc).2.1 rfl

/-- Two texts that begin with a word and a colon begin with the same word. -/
theorem eq_of_word_append {v s : Text} (hv : 0x3A ∉ v) (hw : 0x3A ∉ w)
    (h : v ++ 0x3A :: s = w ++ 0x3A :: t) : v = w ∧ s = t := by
  have hsplit := congrArg (List.splitOn 0x3A) h
  rw [splitOn_append_cons, splitOn_append_cons, splitOn_of_not_mem hv, splitOn_of_not_mem hw,
    singleton_append, singleton_append, List.cons.injEq] at hsplit
  obtain rfl := hsplit.1
  exact ⟨rfl, by simpa using h⟩

/-- A namespace whose next word is a node's token. -/
def NodeSpace (ns : Text) : Prop :=
  ns.getLast? = some 0x3A ∧ (∀ b ∈ ns, Plain b) ∧ (words ns.dropLast).find? isToken = none ∧
    ∀ space ∈ [serverSpace, dailySpace, accessEpochPrefix], ¬ ns <+: space ∧ ¬ space <+: ns

-- Through the bytes of the text, not through all bytes.
instance (ns : Text) : Decidable (NodeSpace ns) :=
  haveI : Decidable (∀ b ∈ ns, Plain b) := List.decidableBAll _ ns
  inferInstanceAs (Decidable (ns.getLast? = some 0x3A ∧ (∀ b ∈ ns, Plain b) ∧
    (words ns.dropLast).find? isToken = none ∧
    ∀ space ∈ [serverSpace, dailySpace, accessEpochPrefix], ¬ ns <+: space ∧ ¬ space <+: ns))

/-- Two prefixes of one text are comparable. -/
theorem not_prefix_of_apart {p q : Text} (hp : p <+: t) (hpq : ¬ p <+: q) (hqp : ¬ q <+: p) :
    ¬ q <+: t := fun hq ↦ (List.prefix_or_prefix_of_prefix hp hq).elim hpq hqp

/-- The first token-like word after a node's namespace is the token there. -/
theorem namedAfter_eq {ns tok rest : Text} (hns : NodeSpace ns) (htok : isToken tok)
    (hrest : rest = [] ∨ rest.head? = some 0x3A) : namedAfter (ns ++ tok ++ rest) = some tok := by
  obtain ⟨hlast, -, hfind, hspace⟩ := hns
  have hpre : ns <+: ns ++ tok ++ rest := by
    rw [append_assoc]
    exact prefix_append ns _
  have hnot : ¬ (serverSpace <+: ns ++ tok ++ rest ∨ dailySpace <+: ns ++ tok ++ rest) := by
    rintro (h | h)
    · exact not_prefix_of_apart hpre (hspace _ (by simp)).1 (hspace _ (by simp)).2 h
    · exact not_prefix_of_apart hpre (hspace _ (by simp)).1 (hspace _ (by simp)).2 h
  have htok' : 0x3A ∉ tok := colon_not_mem (wordByte_of_isToken htok)
  have hwords : ∃ ws, words (tok ++ rest) = tok :: ws := by
    rcases hrest with rfl | hrest
    · exact ⟨[], by rw [append_nil, words, splitOn_of_not_mem htok']⟩
    · obtain ⟨r, rfl⟩ := head?_eq_some_iff.mp hrest
      exact ⟨_, by rw [words, splitOn_append_cons, splitOn_of_not_mem htok', singleton_append]⟩
  obtain ⟨ws, hws⟩ := hwords
  have hns : ns ++ tok ++ rest = ns.dropLast ++ 0x3A :: (tok ++ rest) := by
    nth_rewrite 1 [← dropLast_append_getLast? _ hlast]
    simp
  rw [namedAfter, if_neg hnot, hns, words, splitOn_append_cons, find?_append]
  rw [words] at hfind hws
  rw [hfind, hws, none_or, find?_cons_of_pos htok]

/-! ## What the rules grant -/

/-- The namespaces of a node: those of its agent, its Link's, and those of its channels. -/
def nodeSpaces : List Text :=
  [lit "dylaris:node:", lit "dylaris:discovery:", lit "beam:node-endpoint:",
    lit "dylaris:errors:node:", lit "node:", lit "dylaris:migration:endpoint:",
    lit "dylaris:migration:node:",
    lit "dylaris:errors:link:", lit "dylaris:link:", lit "hub:link:discovery:", lit "beam:node:",
    lit "dylaris:backup:results:", lit "dylaris:backup:restores:", lit "dylaris:mods:results:",
    lit "dylaris:setup:results:", lit "dylaris:sftp:audit:"]

theorem nodeSpace_of_mem : ∀ ns ∈ nodeSpaces, NodeSpace ns := by decide +kernel

/-- What the evaluator finds in the texts of the rules and of the names, byte by byte. -/
structure Literals : Prop where
  readWrite : lit "~" = [0x7E]
  readOnly : lit "%R~" = [0x25, 0x52, 0x7E]
  channel : lit "&" = [0x26]
  password : lit ">" = [0x3E]
  on : lit "on" = [0x6F, 0x6E]
  opens : lit "(" = [0x28]
  colon : lit ":" = [0x3A]
  star : lit "* " = lit "*" ++ [0x20]
  allkeys : (lit "allkeys").head? = some 0x61
  allchannels : (lit "allchannels").head? = some 0x61
  /-- The words of the rules that grant neither keys nor channels. -/
  silent : ∀ rules ∈ [[lit "resetkeys", lit "resetchannels"], commandCats, [lit "clearselectors"],
    globalReadKeys], writePatterns rules = [] ∧ publishPatterns rules = []
  counter : ∀ s ∈ [lit "dylaris:beam:daily:", lit ":", lit "*"], 0x20 ∉ s
  commands : lit "+get +incrby +expire)" = lit "+get +incrby +expire" ++ [0x29] ∧
    (lit "+get +incrby +expire").splitOn 0x20 = [lit "+get", lit "+incrby", lit "+expire"] ∧
    [lit "+get", lit "+incrby", lit "+expire"].filterMap writePattern = [] ∧
    [lit "+get", lit "+incrby", lit "+expire"].filterMap publishPattern = []
  /-- What follows a token or an id begins with a colon. -/
  leaves : ∀ leaf ∈ [lit ":*", lit ":stats:live", lit ":logs", lit ":logs:*", lit ":java-heap",
    lit ":input", lit ":log_filter_rcon", lit ":stop-requested", lit ":stats"],
    leaf.head? = some 0x3A
  plain : ∀ s ∈ [serverSpace, dailySpace, lit "link:", lit "online_link:", [0x3A]], ∀ b ∈ s, Plain b
  linkWord : ∀ s ∈ [lit "link", lit "online_link"], 0x3A ∉ s ∧ isToken s = false
  link : lit "link:" = lit "link" ++ [0x3A]
  onlineLink : lit "online_link:" = lit "online_link" ++ [0x3A]
  migration : ∀ ns ∈ nodeSpaces, (¬ ns <+: lit "dylaris:migration:" ∧
    ¬ lit "dylaris:migration:" <+: ns) ∨ ns = lit "dylaris:migration:" ++ lit "endpoint" ++ [0x3A] ∨
      ns = lit "dylaris:migration:" ++ lit "node" ++ [0x3A]
  migrationWord : 0x3A ∉ lit "endpoint" ∧ 0x3A ∉ lit "node"
  short : ∀ leaf ∈ [lit "orchestration", lit "status"], leaf.length < 36
  /-- The spaces of servers and the others, of which none begins with another. -/
  serverApart : ∀ s ∈ [dailySpace, lit "link:", lit "online_link:"],
    ∀ t ∈ [serverSpace, accessEpochPrefix, lit "dylaris:migration:"], ¬ s <+: t ∧ ¬ t <+: s
  serversApart : ∀ t ∈ [accessEpochPrefix, lit "dylaris:migration:"],
    ¬ serverSpace <+: t ∧ ¬ t <+: serverSpace
  linkApart : ∀ s ∈ nodeSpaces ++ [serverSpace, dailySpace],
    ∀ t ∈ [lit "link:", lit "online_link:"], ¬ s <+: t ∧ ¬ t <+: s
  linksApart : ¬ lit "link:" <+: lit "online_link:" ∧ ¬ lit "online_link:" <+: lit "link:"
  shipper : lit "-shipper-" ≠ [] ∧ ¬ lit "-shipper-" <+: lit "-link"
  linkSuffix : lit "-link" ≠ []

theorem literals : Literals := by
  constructor <;> decide +kernel

/-- The patterns of a node: after the token of the node or the id of a server comes nothing more or a
colon. -/
inductive Pattern (n : Node) (tunnel : Text) : Text → Prop
  | exact {ns : Text} (hns : ns ∈ nodeSpaces) : Pattern n tunnel (ns ++ n.token.text)
  | below {ns rest : Text} (hns : ns ∈ nodeSpaces) (hrest : rest.head? = some 0x3A) :
      Pattern n tunnel (ns ++ n.token.text ++ rest)
  | server {u : ServerId} {rest : Text} (hu : u ∈ n.servers) (hrest : rest.head? = some 0x3A) :
      Pattern n tunnel (serverSpace ++ u.text ++ rest)
  | counter {rest : Text} : Pattern n tunnel (dailySpace ++ rest)
  | link : Pattern n tunnel (lit "link:" ++ tunnel)
  | onlineLink : Pattern n tunnel (lit "online_link:" ++ tunnel)

section Reading

variable {b : UInt8} {p t : Text} {rules rules' : List Text}

theorem readWrite_eq (p : Text) : readWrite p = 0x7E :: p :=
  congrArg (· ++ p) literals.readWrite

theorem readOnly_eq (p : Text) : readOnly p = 0x25 :: 0x52 :: 0x7E :: p :=
  congrArg (· ++ p) literals.readOnly

theorem channel_eq (p : Text) : channel p = 0x26 :: p :=
  congrArg (· ++ p) literals.channel

/-- A literal that begins with `a`, as a rule does that grants everything. -/
theorem cons_ne_lit {s : String} (hs : (lit s).head? = some 0x61) (hb : b ≠ 0x61) (t : Text) :
    b :: t ≠ lit s := by
  rintro h
  rw [← h, head?_cons, some_inj] at hs
  exact hb hs

theorem writePatterns_append :
    writePatterns (rules ++ rules') = writePatterns rules ++ writePatterns rules' := by
  simp [writePatterns]

theorem publishPatterns_append :
    publishPatterns (rules ++ rules') = publishPatterns rules ++ publishPatterns rules' := by
  simp [publishPatterns]

@[simp] theorem writePattern_readWrite (p : Text) : writePattern (readWrite p) = some p := by
  simp [readWrite_eq, writePattern]

@[simp] theorem publishPattern_readWrite (p : Text) : publishPattern (readWrite p) = none := by
  have hne : 0x7E :: p ≠ lit "allchannels" := cons_ne_lit literals.allchannels (by decide) p
  simp [readWrite_eq, publishPattern, hne]

@[simp] theorem writePatterns_readWrite :
    writePatterns (readWrite p :: rules) = p :: writePatterns rules := by
  simp [writePatterns, parts, readWrite_eq, writePattern]

@[simp] theorem writePatterns_readOnly :
    writePatterns (readOnly p :: rules) = writePatterns rules := by
  simp [writePatterns, parts, readOnly_eq, writePattern, flaggedPattern]

@[simp] theorem publishPatterns_channel :
    publishPatterns (channel p :: rules) = p :: publishPatterns rules := by
  simp [publishPatterns, parts, channel_eq, publishPattern]

/-- A rule of another kind grants no key. -/
theorem writePatterns_cons_of_ne (h : b ∉ [0x28, 0x7E, 0x25, 0x61]) :
    writePatterns ((b :: t) :: rules) = writePatterns rules := by
  simp only [mem_cons, not_mem_nil, or_false, not_or] at h
  obtain ⟨h1, h2, h3, h4⟩ := h
  have hall : b :: t ≠ lit "allkeys" := cons_ne_lit literals.allkeys h4 t
  have hnone : writePattern (b :: t) = none := by simp [writePattern, h2, h3, hall]
  simp [writePatterns, parts, h1, hnone]

/-- A rule of another kind grants no channel. -/
theorem publishPatterns_cons_of_ne (h : b ∉ [0x28, 0x26, 0x61]) :
    publishPatterns ((b :: t) :: rules) = publishPatterns rules := by
  simp only [mem_cons, not_mem_nil, or_false, not_or] at h
  obtain ⟨h1, h2, h3⟩ := h
  have hall : b :: t ≠ lit "allchannels" := cons_ne_lit literals.allchannels h3 t
  have hnone : publishPattern (b :: t) = none := by simp [publishPattern, h2, hall]
  simp [publishPatterns, parts, h1, hnone]

@[simp] theorem writePatterns_channel :
    writePatterns (channel p :: rules) = writePatterns rules := by
  rw [channel_eq]
  exact writePatterns_cons_of_ne (by decide)

@[simp] theorem publishPatterns_readWrite :
    publishPatterns (readWrite p :: rules) = publishPatterns rules := by
  rw [readWrite_eq]
  exact publishPatterns_cons_of_ne (by decide)

@[simp] theorem publishPatterns_readOnly :
    publishPatterns (readOnly p :: rules) = publishPatterns rules := by
  rw [readOnly_eq]
  exact publishPatterns_cons_of_ne (by decide)

@[simp] theorem patterns_header (password : Text) :
    writePatterns (header password) = [] ∧ publishPatterns (header password) = [] := by
  have hpw : lit ">" ++ password = 0x3E :: password :=
    congrArg (· ++ password) literals.password
  obtain ⟨hwrite, hpublish⟩ := literals.silent [lit "resetkeys", lit "resetchannels"] (by simp)
  rw [header, literals.on, hpw]
  constructor
  · rw [writePatterns_cons_of_ne (by decide), writePatterns_cons_of_ne (by decide), hwrite]
  · rw [publishPatterns_cons_of_ne (by decide), publishPatterns_cons_of_ne (by decide), hpublish]

@[simp] theorem writePatterns_nil : writePatterns [] = [] := rfl

@[simp] theorem publishPatterns_nil : publishPatterns [] = [] := rfl

@[simp] theorem patterns_commandCats :
    writePatterns commandCats = [] ∧ publishPatterns commandCats = [] :=
  literals.silent commandCats (by simp)

variable {α : Type}

section

variable (f : α → Text)

include f

theorem writePatterns_map_readWrite (l : List α) :
    writePatterns (l.map fun x ↦ readWrite (f x)) = l.map f := by
  induction l with
  | nil => rfl
  | cons x l ih => rw [map_cons, writePatterns_readWrite, ih, map_cons]

theorem writePatterns_map_channel (l : List α) :
    writePatterns (l.map fun x ↦ channel (f x)) = [] := by
  induction l with
  | nil => rfl
  | cons x l ih => rw [map_cons, writePatterns_channel, ih]

theorem publishPatterns_map_channel (l : List α) :
    publishPatterns (l.map fun x ↦ channel (f x)) = l.map f := by
  induction l with
  | nil => rfl
  | cons x l ih => rw [map_cons, publishPatterns_channel, ih, map_cons]

theorem publishPatterns_map_readWrite (l : List α) :
    publishPatterns (l.map fun x ↦ readWrite (f x)) = [] := by
  induction l with
  | nil => rfl
  | cons x l ih => rw [map_cons, publishPatterns_readWrite, ih]

end

end Reading

/-! ## The upload counters -/

/-- The rules inside the selector. -/
theorem splitOn_counters {us : List Text} (h : ∀ u ∈ us, 0x20 ∉ u) (rest : Text) :
    (us.flatMap (fun u ↦ readWrite (dailyKeyPrefix u) ++ lit "* ") ++ rest).splitOn 0x20 =
      us.map (fun u ↦ readWrite (dailyKeyPrefix u ++ lit "*")) ++ rest.splitOn 0x20 := by
  have hparts := literals.counter
  induction us with
  | nil => rfl
  | cons u us ih =>
    obtain ⟨hu, hus⟩ := forall_mem_cons.mp h
    have hrule : 0x20 ∉ readWrite (dailyKeyPrefix u ++ lit "*") := by
      simp only [readWrite_eq, dailyKeyPrefix, mem_cons, mem_append, not_or]
      exact ⟨by decide, ⟨⟨hparts _ (by simp), hu⟩, hparts _ (by simp)⟩, hparts _ (by simp)⟩
    have hcons : (u :: us).flatMap (fun u ↦ readWrite (dailyKeyPrefix u) ++ lit "* ") ++ rest =
        readWrite (dailyKeyPrefix u ++ lit "*") ++
          0x20 :: (us.flatMap (fun u ↦ readWrite (dailyKeyPrefix u) ++ lit "* ") ++ rest) := by
      simp [literals.star, readWrite_eq]
    rw [hcons, splitOn_append_cons, splitOn_of_not_mem hrule, ih hus, map_cons,
      singleton_append, cons_append]

/-- The selector grants the counters of the users and no channel. -/
theorem beamQuotaSelector_patterns {us : List Text} (h : ∀ u ∈ us, 0x20 ∉ u) (hne : us ≠ []) :
    writePatterns [beamQuotaSelector us] =
        (us.mergeSort textLE).map (fun u ↦ dailyKeyPrefix u ++ lit "*") ∧
      publishPatterns [beamQuotaSelector us] = [] := by
  obtain ⟨hclose, hrest, hw, hp⟩ := literals.commands
  have hparts : parts (beamQuotaSelector us) =
      (us.mergeSort textLE).map (fun u ↦ readWrite (dailyKeyPrefix u ++ lit "*")) ++
        [lit "+get", lit "+incrby", lit "+expire"] := by
    have hsorted : ∀ u ∈ us.mergeSort textLE, 0x20 ∉ u := fun u hu ↦
      h u (mem_mergeSort.mp hu)
    rw [← hrest, ← splitOn_counters hsorted, beamQuotaSelector, if_neg hne, parts, literals.opens, hclose]
    simp
  constructor
  · rw [writePatterns, flatMap_singleton, hparts, filterMap_append, hw, append_nil,
      filterMap_map]
    simp
  · rw [publishPatterns, flatMap_singleton, hparts, filterMap_append, hp, append_nil,
      filterMap_map]
    simp

/-! ## Every pattern of a node is one of its own -/

section Patterns

variable (n : Node) (tunnel : Text)

/-- The grant of quotas is for the counters alone. -/
theorem pattern_of_quotaGrant :
    (∀ p ∈ writePatterns (beamQuotaGrant (n.usernames.map Username.text)), Pattern n tunnel p) ∧
      publishPatterns (beamQuotaGrant (n.usernames.map Username.text)) = [] := by
  have hspace : ∀ u ∈ n.usernames.map Username.text, 0x20 ∉ u := by
    intro u hu hmem
    obtain ⟨name, -, rfl⟩ := mem_map.mp hu
    exact (name.wordByte _ hmem).2.2 rfl
  obtain ⟨hwrite, hpublish⟩ := literals.silent [lit "clearselectors"] (by simp)
  rw [beamQuotaGrant, ← singleton_append, writePatterns_append, publishPatterns_append, hwrite,
    hpublish, nil_append, nil_append]
  split
  · exact ⟨by simp, rfl⟩
  rename_i hsel
  have hne : n.usernames.map Username.text ≠ [] := by
    intro hnil
    exact hsel (by rw [beamQuotaSelector, if_pos hnil])
  obtain ⟨hcounters, hnone⟩ := beamQuotaSelector_patterns hspace hne
  refine ⟨fun p hp ↦ ?_, hnone⟩
  rw [hcounters] at hp
  obtain ⟨u, -, rfl⟩ := mem_map.mp hp
  rw [dailyKeyPrefix, append_assoc, append_assoc]
  exact .counter

variable {p password : Text}

theorem pattern_of_node_write (h : p ∈ writePatterns
      (buildNodeACLRules n.token.text password (n.servers.map ServerId.text))) :
    Pattern n tunnel p := by
  have hstar := literals.leaves (lit ":*") (by simp)
  have hglobal := (literals.silent globalReadKeys (by simp)).1
  simp only [buildNodeACLRules, writePatterns_append, patterns_header, migrationKeys,
    reportChannels, hglobal, patterns_commandCats, writePatterns_map_readWrite,
    writePatterns_map_channel, writePatterns_readWrite, writePatterns_readOnly,
    writePatterns_channel, writePatterns_nil, nil_append, append_nil, List.mem_append,
    List.mem_cons, List.not_mem_nil, or_false, List.mem_map, exists_exists_and_eq_and] at h
  rcases h with ((rfl | rfl | rfl | rfl | rfl) | rfl | rfl) | ⟨u, hu, rfl⟩
  any_goals exact .exact (by simp [nodeSpaces])
  any_goals exact .below (by simp [nodeSpaces]) hstar
  exact .server hu hstar

theorem pattern_of_node_publish (h : p ∈ publishPatterns
      (buildNodeACLRules n.token.text password (n.servers.map ServerId.text))) :
    Pattern n tunnel p := by
  have hlive := literals.leaves (lit ":stats:live") (by simp)
  have hglobal := (literals.silent globalReadKeys (by simp)).2
  simp only [buildNodeACLRules, publishPatterns_append, patterns_header, migrationKeys,
    reportChannels, hglobal, patterns_commandCats, publishPatterns_map_readWrite,
    publishPatterns_map_channel, publishPatterns_readWrite, publishPatterns_readOnly,
    publishPatterns_channel, publishPatterns_nil, nil_append, append_nil,
    List.mem_append, List.mem_cons, List.not_mem_nil, or_false, List.mem_map,
    exists_exists_and_eq_and] at h
  rcases h with (rfl | rfl | rfl | rfl | rfl) | ⟨u, hu, rfl⟩
  any_goals exact .exact (by simp [nodeSpaces])
  exact .server hu hlive

theorem pattern_of_shipper_write {u : ServerId} (hu : u ∈ n.servers)
    (h : p ∈ writePatterns (buildShipperACLRules password u.text)) : Pattern n tunnel p := by
  simp only [buildShipperACLRules, writePatterns_append, patterns_header,
    writePatterns_readWrite, writePatterns_nil, patterns_commandCats, nil_append,
    append_nil, mem_cons, not_mem_nil, or_false] at h
  rcases h with rfl | rfl | rfl | rfl | rfl | rfl
  all_goals exact .server hu (literals.leaves _ (by simp))

theorem publishPatterns_shipper (password server : Text) :
    publishPatterns (buildShipperACLRules password server) = [] := by
  simp [buildShipperACLRules, publishPatterns_append]

theorem pattern_of_link_write
    (h : p ∈ writePatterns (buildLinkACLRules password n.token.text tunnel)) :
    Pattern n tunnel p := by
  simp only [buildLinkACLRules, writePatterns_append, patterns_header, writePatterns_readWrite,
    writePatterns_readOnly, writePatterns_nil, patterns_commandCats, nil_append,
    append_nil, mem_cons, not_mem_nil, or_false] at h
  rcases h with rfl | rfl | rfl | rfl | rfl | rfl
  · exact .link
  · exact .onlineLink
  · exact .exact (by simp [nodeSpaces])
  · exact .below (by simp [nodeSpaces]) (literals.leaves (lit ":stats") (by simp))
  · exact .exact (by simp [nodeSpaces])
  · exact .exact (by simp [nodeSpaces])

theorem publishPatterns_link (password token : Text) :
    publishPatterns (buildLinkACLRules password token tunnel) = [] := by
  simp [buildLinkACLRules, publishPatterns_append]

/-- Every pattern that lets a principal of the node write, and every channel it may publish on, is
one of the node's patterns. -/
theorem pattern_of_mem {tunnelToken : NodeToken → Text} {who : Principal}
    (hwho : who ∈ n.principals) (h : p ∈ writePatterns (n.rules tunnelToken who) ∨
      p ∈ publishPatterns (n.rules tunnelToken who)) : Pattern n (tunnelToken n.token) p := by
  simp only [Node.principals, List.mem_cons, List.mem_map] at hwho
  rcases hwho with rfl | rfl | ⟨u, hu, rfl⟩
  · have hquota := pattern_of_quotaGrant n (tunnelToken n.token)
    simp only [Node.rules, writePatterns_append, publishPatterns_append, List.mem_append, hquota.2,
      List.not_mem_nil, or_false] at h
    rcases h with (h | h) | h
    · exact pattern_of_node_write n _ h
    · exact hquota.1 _ h
    · exact pattern_of_node_publish n _ h
  · rw [Node.rules, publishPatterns_link] at h
    exact pattern_of_link_write n _ (h.resolve_right (by simp))
  · rw [Node.rules, publishPatterns_shipper] at h
    exact pattern_of_shipper_write n _ hu (h.resolve_right (by simp))

end Patterns

/-! ## What a pattern of a node matches -/

/-- The names a node reaches. -/
inductive Touches (n : Node) (tunnel : Text) (key : Text) : Prop
  | node {ns rest : Text} (hns : ns ∈ nodeSpaces) (hrest : rest = [] ∨ rest.head? = some 0x3A)
      (h : key = ns ++ n.token.text ++ rest)
  | server {u : ServerId} (hu : u ∈ n.servers) (h : serverSpace ++ u.text ++ lit ":" <+: key)
  | counter (h : dailySpace <+: key)
  | link (h : key = lit "link:" ++ tunnel)
  | onlineLink (h : key = lit "online_link:" ++ tunnel)

theorem plain_append {s : Text} (hs : ∀ b ∈ s, Plain b) (ht : ∀ b ∈ t, Plain b) :
    ∀ b ∈ s ++ t, Plain b := fun b hb ↦ (List.mem_append.mp hb).elim (hs b) (ht b)

theorem touches_of_glob {n : Node} {tunnel p key : Text} (htunnel : ∀ b ∈ tunnel, Plain b)
    (hp : Pattern n tunnel p) (hg : glob p key) : Touches n tunnel key := by
  have hspaces := literals.plain
  have htok : ∀ b ∈ n.token.text, Plain b := fun b hb ↦
    (wordByte_of_isToken n.token.minted b hb).1
  cases hp with
  | exact hns =>
    refine .node hns (.inl rfl) ?_
    rw [append_nil]
    exact (glob_eq_true (plain_append (nodeSpace_of_mem _ hns).2.1 htok)).mp hg
  | below hns hrest =>
    obtain ⟨leaf, rfl⟩ := head?_eq_some_iff.mp hrest
    rw [← singleton_append, ← append_assoc] at hg
    obtain ⟨t, rfl⟩ := prefix_of_glob
      (plain_append (plain_append (nodeSpace_of_mem _ hns).2.1 htok) (hspaces _ (by simp))) hg
    exact .node hns (.inr rfl) (append_assoc _ _ _)
  | @server u _ hu hrest =>
    obtain ⟨leaf, rfl⟩ := head?_eq_some_iff.mp hrest
    rw [← singleton_append, ← append_assoc] at hg
    refine .server hu ?_
    rw [literals.colon]
    exact prefix_of_glob (plain_append (plain_append (hspaces _ (by simp))
      fun b hb ↦ (u.wordByte b hb).1) (hspaces _ (by simp))) hg
  | counter => exact .counter (prefix_of_glob (hspaces _ (by simp)) hg)
  | link => exact .link ((glob_eq_true (plain_append (hspaces _ (by simp)) htunnel)).mp hg)
  | onlineLink =>
    exact .onlineLink ((glob_eq_true (plain_append (hspaces _ (by simp)) htunnel)).mp hg)

/-! ## What it does not match -/

section Apart

variable {n : Node} {tunnel key : Text}

/-- A name the node reaches is named after this node or after none. -/
theorem Touches.namedAfter (h : Touches n tunnel key) (htunnel : ∀ b ∈ tunnel, WordByte b)
    (hlength : tunnel.length ≠ 36) :
    namedAfter key = some n.token.text ∨ namedAfter key = none := by
  have hword := literals.linkWord
  have htoken : isToken tunnel = false := by simp [isToken, hlength]
  have hnone : ∀ s ∈ [lit "link", lit "online_link"],
      (words (s ++ [0x3A] ++ tunnel)).find? isToken = none := by
    intro s hs
    rw [words, append_assoc, singleton_append, splitOn_append_cons,
      splitOn_of_not_mem (hword s hs).1, splitOn_of_not_mem (colon_not_mem htunnel)]
    simp [(hword s hs).2, htoken]
  cases h with
  | node hns hrest h =>
    left
    rw [h]
    exact namedAfter_eq (nodeSpace_of_mem _ hns) n.token.minted hrest
  | server hu h =>
    right
    rw [append_assoc] at h
    rw [RedisAcl.namedAfter, if_pos (.inl ((prefix_append _ _).trans h))]
  | counter h =>
    right
    rw [RedisAcl.namedAfter, if_pos (.inr h)]
  | link h =>
    right
    rw [RedisAcl.namedAfter, h, literals.link, hnone _ (by simp), ite_self]
  | onlineLink h =>
    right
    rw [RedisAcl.namedAfter, h, literals.onlineLink, hnone _ (by simp), ite_self]

/-- A name in a node's namespace for migrations is not a server's. -/
theorem migration_ne {ns tok rest leaf : Text} {v : ServerId} (hns : ns ∈ nodeSpaces)
    (htok : isToken tok) (hleaf : leaf ∈ [lit "orchestration", lit "status"]) :
    ns ++ tok ++ rest ≠ lit "dylaris:migration:" ++ v.text ++ lit ":" ++ leaf := by
  intro h
  -- The namespace begins as the server's key does, so it is one of the two for migrations.
  have hns' : ∃ w, 0x3A ∉ w ∧ ns = lit "dylaris:migration:" ++ w ++ [0x3A] := by
    have hpre : ns <+: lit "dylaris:migration:" ++ v.text ++ lit ":" ++ leaf := by
      rw [← h, append_assoc]
      exact prefix_append _ _
    rcases literals.migration ns hns with ⟨h1, h2⟩ | rfl | rfl
    · refine absurd ?_ (not_prefix_of_apart hpre h1 h2)
      rw [append_assoc, append_assoc]
      exact prefix_append _ _
    · exact ⟨lit "endpoint", literals.migrationWord.1, rfl⟩
    · exact ⟨lit "node", literals.migrationWord.2, rfl⟩
  obtain ⟨w, hw, rfl⟩ := hns'
  rw [literals.colon] at h
  simp only [append_assoc, append_cancel_left_eq, cons_append, nil_append] at h
  -- After the word comes the token on one side and a short leaf on the other.
  obtain ⟨-, htail⟩ := eq_of_word_append hw (colon_not_mem v.wordByte) h
  have hlen := congrArg List.length htail
  have htoklen : tok.length = 36 := by
    rw [isToken, Bool.and_eq_true] at htok
    simpa using htok.1
  rw [length_append] at hlen
  have := literals.short leaf hleaf
  omega

/-- A name the node reaches belongs to no server that is not on the node. -/
theorem Touches.not_serverKey (h : Touches n tunnel key) {v : ServerId} (hv : v ∉ n.servers) :
    ¬ ServerKey v key := by
  have hapart := literals.serverApart
  -- What begins with none of the three spaces of servers is no server's.
  have hother : ∀ s ∈ [dailySpace, lit "link:", lit "online_link:"], s <+: key →
      ¬ ServerKey v key := by
    intro s hs hpre hkey
    have hnot : ∀ t ∈ [serverSpace, accessEpochPrefix, lit "dylaris:migration:"], ¬ t <+: key :=
      fun t ht ↦ not_prefix_of_apart hpre (hapart s hs t ht).1 (hapart s hs t ht).2
    rcases hkey with h | rfl | ⟨leaf, -, rfl⟩
    · rw [append_assoc] at h
      exact hnot _ (by simp) ((prefix_append _ _).trans h)
    · exact hnot accessEpochPrefix (by simp) (prefix_append _ _)
    · rw [append_assoc, append_assoc] at hnot
      exact hnot _ (by simp) (prefix_append _ _)
  cases h with
  | @node ns rest hns hrest h =>
    have hpre : ns <+: key := by
      rw [h, append_assoc]
      exact prefix_append _ _
    have hnot : ∀ space ∈ [serverSpace, dailySpace, accessEpochPrefix], ¬ space <+: key :=
      fun space hspace ↦ not_prefix_of_apart hpre ((nodeSpace_of_mem ns hns).2.2.2 space hspace).1
        ((nodeSpace_of_mem ns hns).2.2.2 space hspace).2
    rintro (hkey | rfl | ⟨leaf, hleaf, hkey⟩)
    · rw [append_assoc] at hkey
      exact hnot _ (by simp) ((prefix_append _ _).trans hkey)
    · exact hnot accessEpochPrefix (by simp) (prefix_append _ _)
    · exact migration_ne hns n.token.minted hleaf (h.symm.trans hkey)
  | @server u hu h =>
    have hpre : serverSpace <+: key := by
      rw [append_assoc] at h
      exact (prefix_append _ _).trans h
    have hapart' := literals.serversApart
    rintro (hkey | rfl | ⟨leaf, -, rfl⟩)
    · obtain ⟨s, rfl⟩ := h
      obtain ⟨t, ht⟩ := hkey
      rw [literals.colon] at ht
      simp only [append_assoc, append_cancel_left_eq, singleton_append] at ht
      have htext := (eq_of_word_append (colon_not_mem v.wordByte) (colon_not_mem u.wordByte) ht).1
      exact hv (ServerId.ext htext ▸ hu)
    · exact not_prefix_of_apart hpre (hapart' _ (by simp)).1 (hapart' _ (by simp)).2
        (prefix_append _ _)
    · rw [append_assoc, append_assoc] at hpre
      exact not_prefix_of_apart hpre (hapart' (lit "dylaris:migration:") (by simp)).1
        (hapart' _ (by simp)).2 (prefix_append _ _)
  | counter h => exact hother _ (by simp) h
  | link h | onlineLink h => exact hother _ (by simp) (h ▸ prefix_append _ _)

/-- A name the node reaches is not the registration of another Link. -/
theorem Touches.ne_link (h : Touches n tunnel key) {other : Text} (hne : tunnel ≠ other) :
    key ∉ [lit "link:" ++ other, lit "online_link:" ++ other] := by
  have hspaces := literals.linkApart
  have htwo := literals.linksApart
  have hother : ∀ s ∈ nodeSpaces ++ [serverSpace, dailySpace], s <+: key →
      key ∉ [lit "link:" ++ other, lit "online_link:" ++ other] := by
    intro s hs hpre hmem
    have hnot : ∀ t ∈ [lit "link:", lit "online_link:"], ¬ t <+: key := fun t ht ↦
      not_prefix_of_apart hpre (hspaces s hs t ht).1 (hspaces s hs t ht).2
    rcases mem_pair.mp hmem with rfl | rfl
    · exact hnot (lit "link:") (by simp) (prefix_append _ _)
    · exact hnot (lit "online_link:") (by simp) (prefix_append _ _)
  cases h with
  | node hns hrest h =>
    refine hother _ (mem_append_left _ hns) ?_
    rw [h, append_assoc]
    exact prefix_append _ _
  | server hu h =>
    rw [append_assoc] at h
    exact hother serverSpace (by simp) ((prefix_append _ _).trans h)
  | counter h => exact hother dailySpace (by simp) h
  | link h =>
    rw [h, mem_pair]
    rintro (heq | heq)
    · exact hne (append_cancel_left heq)
    · exact not_prefix_of_apart (prefix_append (lit "link:") tunnel) htwo.1 htwo.2
        (heq ▸ prefix_append _ _)
  | onlineLink h =>
    rw [h, mem_pair]
    rintro (heq | heq)
    · exact not_prefix_of_apart (prefix_append (lit "online_link:") tunnel) htwo.2 htwo.1
        (heq ▸ prefix_append _ _)
    · exact hne (append_cancel_left heq)

end Apart

/-! ## Usernames -/

/-- The node of a principal. -/
def Principal.token : Principal → NodeToken
  | .agent token | .shipper token _ | .link token => token

/-- What a username has after the node's token. -/
def Principal.suffix : Principal → Text
  | .agent _ => []
  | .shipper _ server => lit "-shipper-" ++ server.text
  | .link _ => lit "-link"

theorem Principal.username_eq (who : Principal) :
    who.username = lit "node-" ++ (who.token.text ++ who.suffix) := by
  cases who <;> simp [username, token, suffix]

theorem NodeToken.length_eq (t : NodeToken) : t.text.length = 36 := by
  have h := t.minted
  rw [isToken, Bool.and_eq_true] at h
  simpa using h.1

theorem Principal.eq_of_suffix {p q : Principal} (ht : p.token = q.token) (hs : p.suffix = q.suffix) :
    p = q := by
  have hship := literals.shipper
  have hlink := literals.linkSuffix
  cases p <;> cases q <;> simp only [token, suffix] at ht hs <;> subst ht
  case agent.agent => rfl
  case agent.shipper => simp [hship.1] at hs
  case agent.link => exact absurd hs.symm hlink
  case shipper.agent => simp [hship.1] at hs
  case shipper.shipper => rw [ServerId.ext (append_cancel_left hs)]
  case shipper.link => exact absurd (hs ▸ prefix_append _ _) hship.2
  case link.agent => exact absurd hs hlink
  case link.shipper => exact absurd (hs ▸ prefix_append _ _) hship.2
  case link.link => rfl

theorem Principal.username_injective {p q : Principal} (h : p.username = q.username) : p = q := by
  rw [username_eq, username_eq, append_cancel_left_eq] at h
  have hlen : p.token.text.length = q.token.text.length := by
    rw [p.token.length_eq, q.token.length_eq]
  obtain ⟨ht, hs⟩ := append_inj h hlen
  exact eq_of_suffix (NodeToken.ext ht) hs

/-- **The generated rights keep nodes apart.**  A key that a principal of one node may write, and a
channel that it may publish on, is not named after another node, and belongs to no server that is not
on the node; nor is it the registration of another node's Link, where the hash tells the two nodes
apart.  The names of all users are different. -/
theorem rights_apart (sha256 : Text → Digest) (clusterSecret : Text) (a b : Node)
    (hab : a.token ≠ b.token) :
    (∀ who ∈ a.principals, ∀ p key : Text, glob p key →
      p ∈ writePatterns (a.rules (linkTunnelToken sha256 · clusterSecret) who) ∨
        p ∈ publishPatterns (a.rules (linkTunnelToken sha256 · clusterSecret) who) →
      namedAfter key ≠ some b.token.text ∧ (∀ v, v ∉ a.servers → ¬ ServerKey v key) ∧
        (linkTunnelToken sha256 a.token clusterSecret ≠ linkTunnelToken sha256 b.token clusterSecret →
          key ∉ [lit "link:" ++ linkTunnelToken sha256 b.token clusterSecret,
            lit "online_link:" ++ linkTunnelToken sha256 b.token clusterSecret])) ∧
    ∀ p q : Principal, p ≠ q → p.username ≠ q.username := by
  refine ⟨fun who hwho p key hg hp ↦ ?_, fun p q hpq h ↦ hpq (Principal.username_injective h)⟩
  have hword : ∀ b ∈ linkTunnelToken sha256 a.token clusterSecret, WordByte b :=
    hexEncode_wordByte _
  have hlength : (linkTunnelToken sha256 a.token clusterSecret).length ≠ 36 := by
    rw [linkTunnelToken, length_hexEncode, Digest.length_eq]
    decide
  have htouch : Touches a (linkTunnelToken sha256 a.token clusterSecret) key :=
    touches_of_glob (fun b hb ↦ (hword b hb).1) (pattern_of_mem a hwho hp) hg
  refine ⟨fun hb ↦ ?_, fun v hv ↦ htouch.not_serverKey hv, fun hne ↦ htouch.ne_link hne⟩
  rcases htouch.namedAfter hword hlength with h | h
  · rw [h, some_inj] at hb
    exact hab (NodeToken.ext hb)
  · rw [h] at hb
    simp at hb

/-- Two nodes; the first has a server and a user. -/
def exampleNode (token : NodeToken) : Node where
  token := token
  servers := [⟨lit "11111111-2222-4333-8444-555555555555_ab12", by decide +kernel⟩]
  usernames := [⟨lit "steve", by decide +kernel⟩]
  password _ := lit "secret"

def exampleTokenA : NodeToken := ⟨lit "6f1d8c1e-0a52-4b1c-9f5e-3c2b1a00d9e1", by decide +kernel⟩

def exampleTokenB : NodeToken := ⟨lit "6f1d8c1e-0a52-4b1c-9f5e-3c2b1a00d9e2", by decide +kernel⟩

/-- The agent of the first node may write its own keys, and by the theorem none of the second's. -/
theorem rights_apart_example :
    glob (lit "dylaris:node:" ++ exampleTokenA.text ++ lit ":*")
        (lit "dylaris:node:" ++ exampleTokenA.text ++ lit ":ports") = true ∧
      ∀ p ∈ writePatterns ((exampleNode exampleTokenA).rules
          (linkTunnelToken (fun _ ↦ ⟨List.replicate 32 0, by decide⟩) · []) (.agent exampleTokenA)),
        ∀ key, glob p key → namedAfter key ≠ some exampleTokenB.text := by
  have hab : (exampleNode exampleTokenA).token ≠ (exampleNode exampleTokenB).token := by
    decide +kernel
  refine ⟨by decide +kernel, fun p hp key hg ↦ ?_⟩
  exact ((rights_apart (fun _ ↦ ⟨List.replicate 32 0, by decide⟩) []
    (exampleNode exampleTokenA) (exampleNode exampleTokenB) hab).1
      (.agent exampleTokenA) (by simp [Node.principals, exampleNode]) p key hg (.inl hp)).1

end Dylaris.RedisAcl
