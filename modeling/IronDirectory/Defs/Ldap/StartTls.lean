import IronDirectory.Defs.Ldap.Identity

namespace IronDirectory.Ldap

open Base Crypto Kerberos Kdc

section Framing

variable {split : Bytes → Except Unit (Option (Bytes × Bytes))} {buf frame rest : Bytes}

def delivered (split : Bytes → Except Unit (Option (Bytes × Bytes))) (buf : Bytes) :
    List (Option Bytes) → Bytes
  | some (b :: bs) :: chunks =>
    match split buf with
    | .ok none => b :: bs ++ delivered split (buf ++ b :: bs) chunks
    | _ => []
  | _ => []

theorem split_of_readFramed {chunks : List (Option Bytes)}
    (h : readFramed split buf chunks = .ok (some (frame, rest))) :
    split (buf ++ delivered split buf chunks) = .ok (some (frame, rest)) := by
  induction chunks generalizing buf with
  | nil =>
    rw [readFramed.eq_def] at h
    rw [delivered.eq_def, List.append_nil]
    split at h
    · cases h
    · next hsplit =>
      cases h
      exact hsplit
    · simp only at h
      split at h <;> cases h
  | cons chunk chunks ih =>
    rw [readFramed.eq_def] at h
    split at h
    · cases h
    · next hsplit =>
      cases h
      have hnone : delivered split buf (chunk :: chunks) = [] := by
        rw [delivered.eq_def]
        simp only [hsplit]
        split <;> rfl
      rw [hnone, List.append_nil]
      exact hsplit
    · next hsplit =>
      match chunk, h with
      | none, h => cases h
      | some [], h =>
        simp only at h
        split at h <;> cases h
      | some (b :: bs), h =>
        rw [delivered, hsplit]
        simpa only [List.append_assoc] using ih h

theorem append_of_splitMessage (h : splitMessage buf = .ok (some (frame, rest))) :
    buf = frame ++ rest := by
  unfold splitMessage at h
  split at h
  · cases h
  · cases h
  · split at h
    · cases h
      exact (List.take_append_drop _ _).symm
    · cases h

theorem append_of_splitSized (h : splitSized buf = .ok (some (frame, rest))) :
    ∃ header, header.length = 4 ∧ Bytes.ofBe header = frame.length ∧
      buf = header ++ frame ++ rest := by
  unfold splitSized at h
  simp only at h
  split at h
  · next hlen =>
    cases h
    refine ⟨buf.take 4, by simp [hlen.1], ?_, ?_⟩
    · rw [List.length_take, List.length_drop]
      omega
    · rw [List.append_assoc, ← List.drop_drop, List.take_append_drop, List.take_append_drop]
  · cases h

end Framing

variable {R A : Type} {server : Server R A} {s t : Conn server.platform.cipher} {i : Input}
  {msg : Message (Request R)} {rest : Bytes}

def reads (server : Server R A) (sasl : SaslState) (buf : Bytes) (chunks : List (Option Bytes)) :
    Bytes :=
  match sasl with
  | .securityLayerActive _ _ _ _ =>
    if server.fips = false then [] else delivered splitSized buf chunks
  | _ => delivered splitMessage buf chunks

/-- The message is decoded from these bytes and no others. -/
inductive DecodedFrom (server : Server R A) (raw : Bytes) (msg : Message (Request R)) :
    SaslState → Prop
  | bare {sasl : SaslState} :
    ¬ sasl.Active → server.decode raw = .ok msg → DecodedFrom server raw msg sasl
  | wrapped {key : Bytes} {enctype : Enctype} {isSealed : Bool} {seq : UInt64}
      {header token plain : Bytes} :
    raw = header ++ token → header.length = 4 → Bytes.ofBe header = token.length →
      Gssapi.unwrap server.platform.cipher enctype key 24 token = .ok plain →
      server.decode plain = .ok msg →
      DecodedFrom server raw msg (.securityLayerActive key enctype isSealed seq)

theorem decodedFrom_of_bare {sasl : SaslState} {buf : Bytes} {chunks : List (Option Bytes)}
    (hsasl : ¬ sasl.Active) (h : (match readFramed splitMessage buf chunks with
      | .error e => .error e
      | .ok none => .ok none
      | .ok (some (bytes, rest)) =>
        match server.decode bytes with
        | .error _ => .error ()
        | .ok msg => .ok (some (msg, rest)) : Except Unit (Option (Message (Request R) × Bytes))) =
      .ok (some (msg, rest))) :
    ∃ raw, buf ++ delivered splitMessage buf chunks = raw ++ rest ∧
      DecodedFrom server raw msg sasl := by
  split at h
  · cases h
  · cases h
  · next bytes rest' hread =>
    split at h
    · cases h
    · next hdecode =>
      cases h
      exact ⟨bytes, append_of_splitMessage (split_of_readFramed hread), .bare hsasl hdecode⟩

theorem readNextMessage_eq_some {sasl : SaslState} {buf : Bytes} {chunks : List (Option Bytes)}
    (h : readNextMessage server sasl buf chunks = .ok (some (msg, rest))) :
    ∃ raw, buf ++ reads server sasl buf chunks = raw ++ rest ∧
      DecodedFrom server raw msg sasl := by
  cases sasl with
  | none => exact decodedFrom_of_bare id h
  | awaitingApRepAck ctx => exact decodedFrom_of_bare id h
  | awaitingSecurityLayerAck ctx => exact decodedFrom_of_bare id h
  | securityLayerActive key enctype isSealed seq =>
    simp only [readNextMessage] at h
    simp only [reads]
    split at h
    · cases h
    · next hfips =>
      rw [if_neg hfips]
      split at h
      · cases h
      · cases h
      · next token rest' hread =>
        split at h
        · cases h
        · next plain hplain =>
          split at h
          · cases h
          · next hdecode =>
            cases h
            obtain ⟨header, hfour, hlen, havail⟩ :=
              append_of_splitSized (split_of_readFramed hread)
            exact ⟨header ++ token, havail, .wrapped rfl hfour hlen hplain hdecode⟩

section Round

theorem sendVia_stream (i : Input) (n : Nat) (via : SaslState) (m : Message (Response A))
    (s : Conn server.platform.cipher) :
    (sendVia server i n via m s).1.buf = s.buf ∧ (sendVia server i n via m s).1.tls = s.tls := by
  unfold sendVia
  split
  · exact ⟨rfl, rfl⟩
  · exact ⟨rfl, rfl⟩

theorem send_stream (i : Input) (n : Nat) (m : Message (Response A))
    (s : Conn server.platform.cipher) :
    (send server i n m s).buf = s.buf ∧ (send server i n m s).tls = s.tls :=
  sendVia_stream i n s.sasl m s

theorem sendAll_stream (i : Input) (messageId : UInt32) (n : Nat) (rs : List (Response A))
    (s : Conn server.platform.cipher) :
    (sendAll server i messageId n rs s).buf = s.buf ∧
      (sendAll server i messageId n rs s).tls = s.tls := by
  induction rs generalizing n s with
  | nil => exact ⟨rfl, rfl⟩
  | cons r rs ih =>
    have hsend := send_stream i n ⟨messageId, r⟩ s
    simp only [sendAll]
    split
    · have hrest := ih (n + 1) (send server i n ⟨messageId, r⟩ s)
      exact ⟨hrest.1.trans hsend.1, hrest.2.trans hsend.2⟩
    · exact hsend

theorem dispatch_stream (i : Input) (msg : Message (Request R)) (s : Conn server.platform.cipher) :
    (dispatch server i msg s).buf = s.buf ∧ (dispatch server i msg s).tls = s.tls ∨
      (dispatch server i msg s).buf = [] := by
  unfold dispatch
  split
  · exact .inl ⟨rfl, rfl⟩
  · unfold bindStep
    split
    · exact .inl ⟨rfl, rfl⟩
    · exact .inl (sendVia_stream i 0 _ _ _)
  · unfold startTlsStep
    simp only
    split
    · split
      · exact .inr rfl
      · exact .inl (send_stream i 0 _ s)
    · exact .inl (send_stream i 0 _ s)
  · exact .inl (send_stream i 0 _ s)
  · exact .inl (send_stream i 0 _ s)
  · split
    · exact .inl ⟨rfl, rfl⟩
    · exact .inl (sendAll_stream i _ 0 _ s)
  · exact .inl ⟨rfl, rfl⟩

theorem advance_open (hopen : (advance server i s).isOpen = true) :
    ∃ msg rest, readNextMessage server s.sasl s.buf i.chunks = .ok (some (msg, rest)) ∧
      ((advance server i s).buf = rest ∧ (advance server i s).tls = s.tls ∨
        (advance server i s).buf = []) := by
  unfold advance at hopen ⊢
  split at hopen
  · cases hopen
  · cases hopen
  · next msg rest hread =>
    rw [hread]
    exact ⟨msg, rest, rfl, dispatch_stream i msg _⟩

end Round

section Channels

inductive Channel
  | plain
  | tls
  deriving DecidableEq

abbrev Marked := List (UInt8 × Channel)

def Marked.bytes (m : Marked) : Bytes := m.map Prod.fst

def mark (c : Channel) (b : Bytes) : Marked := b.map fun x => (x, c)

def Conn.channel {c : Cipher} (s : Conn c) : Channel := if s.tls then .tls else .plain

@[simp] theorem bytes_mark (c : Channel) (b : Bytes) : (mark c b).bytes = b := by
  simp [mark, Marked.bytes, Function.comp_def]

@[simp] theorem bytes_append (m m' : Marked) : (m ++ m').bytes = m.bytes ++ m'.bytes :=
  List.map_append

def atHand (server : Server R A) (m : Marked) (s : Conn server.platform.cipher) (i : Input) :
    Marked :=
  m ++ mark s.channel (reads server s.sasl s.buf i.chunks)

def markRound (server : Server R A) (m : Marked) (x : Conn server.platform.cipher × Input) :
    Marked :=
  (atHand server m x.1 x.2).drop
    ((atHand server m x.1 x.2).length - (advance server x.2 x.1).buf.length)

def marks (server : Server R A) (steps : List (Conn server.platform.cipher × Input)) : Marked :=
  steps.foldl (markRound server) []

/-- The marks belong to the buffer, and over TLS all of it came through TLS. -/
structure Marks (s : Conn server.platform.cipher) (m : Marked) : Prop where
  bytes : m.bytes = s.buf
  tls : s.tls = true → ∀ b ∈ m, b.2 = .tls

theorem Marks.atHand_tls {m : Marked} (h : Marks s m) (htls : s.tls = true) (i : Input) :
    ∀ b ∈ atHand server m s i, b.2 = .tls := by
  intro b hb
  cases List.mem_append.mp hb with
  | inl hm => exact h.tls htls b hm
  | inr hread =>
    obtain ⟨x, _, rfl⟩ := List.mem_map.mp hread
    simp [Conn.channel, htls]

theorem Marks.bytes_atHand {m : Marked} (h : Marks s m) (i : Input) :
    (atHand server m s i).bytes = s.buf ++ reads server s.sasl s.buf i.chunks := by
  rw [atHand, bytes_append, h.bytes, bytes_mark]

theorem Marks.read {m : Marked} (h : Marks s m)
    (hread : readNextMessage server s.sasl s.buf i.chunks = .ok (some (msg, rest))) :
    ∃ raw left : Marked, atHand server m s i = raw ++ left ∧ left.bytes = rest ∧
      DecodedFrom server raw.bytes msg s.sasl := by
  obtain ⟨raw, havail, hdecoded⟩ := readNextMessage_eq_some hread
  obtain ⟨raw', left, hsplit, rfl, rfl⟩ := List.map_eq_append_iff.mp ((h.bytes_atHand i).trans havail)
  exact ⟨raw', left, hsplit, rfl, hdecoded⟩

theorem Marks.step {m : Marked} (h : Marks s m) (hopen : (advance server i s).isOpen = true) :
    Marks (advance server i s) (markRound server m (s, i)) := by
  obtain ⟨msg, rest, hread, hbuf⟩ := advance_open hopen
  obtain ⟨raw, left, hhand, hleft, _⟩ := h.read hread
  cases hbuf with
  | inl hkept =>
    have hmark : markRound server m (s, i) = left := by
      have hlen : (advance server i s).buf.length = left.length := by
        rw [hkept.1, ← hleft, Marked.bytes, List.length_map]
      rw [markRound, hhand, hlen, List.length_append, Nat.add_sub_cancel, List.drop_left]
    rw [hmark]
    refine ⟨hleft.trans hkept.1.symm, fun htls b hb => ?_⟩
    exact h.atHand_tls (hkept.2 ▸ htls) i b (hhand ▸ List.mem_append_right raw hb)
  | inr hcleared =>
    have hmark : markRound server m (s, i) = [] := by
      simp [markRound, hcleared]
    rw [hmark]
    exact ⟨hcleared.symm, fun _ _ hb => nomatch hb⟩

theorem Marks.run {m : Marked} {steps : List (Conn server.platform.cipher × Input)}
    (hrun : Run (Step server) s steps t) (h : Marks s m) (hopen : t.isOpen = true) :
    Marks t (steps.foldl (markRound server) m) := by
  induction hrun generalizing m with
  | nil => exact h
  | cons hst hrest ih =>
    obtain ⟨_, rfl⟩ := hst
    refine ih (h.step ?_) hopen
    -- a round is only followed by others while the connection is open
    cases hrest with
    | nil => exact hopen
    | cons hnext _ => exact hnext.1

/-- After a handshake every message is decoded from bytes that came through
TLS, whatever was delivered before it and in whatever pieces. -/
theorem decoded_over_tls {pre post : List (Conn server.platform.cipher × Input)}
    (hrun : Run (Step server) (Conn.start server.platform.cipher) (pre ++ (s, i) :: post) t)
    (htls : s.tls = true)
    (hread : readNextMessage server s.sasl s.buf i.chunks = .ok (some (msg, rest))) :
    (marks server pre).bytes = s.buf ∧ ∃ raw left : Marked,
      marks server pre ++ mark .tls (reads server s.sasl s.buf i.chunks) = raw ++ left ∧
        left.bytes = rest ∧ DecodedFrom server raw.bytes msg s.sasl ∧ ∀ b ∈ raw, b.2 = .tls := by
  obtain ⟨hpre, _, hstep, _⟩ := hrun.split
  have hmarks : Marks s (marks server pre) :=
    Marks.run hpre ⟨rfl, fun _ _ hb => nomatch hb⟩ hstep.1
  obtain ⟨raw, left, hhand, hleft, hdecoded⟩ := hmarks.read hread
  have hall := hmarks.atHand_tls htls i
  rw [hhand] at hall
  have hchannel : s.channel = .tls := if_pos htls
  rw [atHand, hchannel] at hhand
  exact ⟨hmarks.bytes, raw, left, hhand, hleft, hdecoded,
    fun b hb => hall b (List.mem_append_left left hb)⟩

def tlsServer : Server Unit Unit where
  platform := .ideal
  derive _ _ _ := .error .ossl
  fips := true
  decode b :=
    if b = [0x30, 1, 0] then .ok ⟨1, .startTls⟩
    else if b = [0x30, 1, 1] then .ok ⟨2, .whoAmI⟩
    else .error "unknown"
  encode _ := .ok [0x30, 0]
  directory _ _ _ := some []
  startTls := true

def chunksInput (chunks : List (Option Bytes)) : Input :=
  ⟨TgsExchange.sampleApp.store, ⟨Clock.epoch, id⟩, chunks, fun _ => true, true⟩

def pipelined : Conn tlsServer.platform.cipher :=
  advance tlsServer (chunksInput [some [0x30, 1, 0, 0x30, 1, 1]]) (Conn.start _)

theorem decoded_over_tls_pipelined :
    pipelined.tls = true ∧ pipelined.buf = [] ∧ ∃ raw left : Marked,
      marks tlsServer [(Conn.start _, chunksInput [some [0x30, 1, 0, 0x30, 1, 1]])] ++
          mark .tls (reads tlsServer pipelined.sasl pipelined.buf [some [0x30], some [1, 1]]) =
        raw ++ left ∧ left.bytes = [] ∧
      DecodedFrom tlsServer raw.bytes ⟨2, .whoAmI⟩ pipelined.sasl ∧ ∀ b ∈ raw, b.2 = .tls := by
  have hrun : Run (Step tlsServer) (Conn.start _)
      ([(Conn.start _, chunksInput [some [0x30, 1, 0, 0x30, 1, 1]])] ++
        (pipelined, chunksInput [some [0x30], some [1, 1]]) :: []) _ :=
    .cons ⟨rfl, rfl⟩ (.cons ⟨rfl, rfl⟩ (.nil _))
  exact ⟨rfl, rfl, (decoded_over_tls hrun rfl rfl).2⟩

end Channels

end IronDirectory.Ldap
