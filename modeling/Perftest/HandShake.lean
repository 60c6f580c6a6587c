import Perftest.ConnectionKeys
import Perftest.Lib.Transition

namespace Perftest

open CString

inductive PartyStatus where
  | running
  | failed
  | undefined
deriving DecidableEq, Repr

/-- One side of the connection: the messages it has sent and the destinations it has decoded. -/
structure Party where
  sent : Nat
  decoded : List PingpongDest
  status : PartyStatus

/-- The arguments of one call of `ctx_hand_shake`. -/
structure HandCall where
  my : PingpongDest
  rem : PingpongDest

/-- The calls that the two programs make one after the other, and their `data_validation`. -/
structure HandConfig where
  client : List HandCall
  server : List HandCall
  clientDv : Bool
  serverDv : Bool

structure HandState where
  client : Party
  server : Party
  toServer : Text
  toClient : Text

inductive HandAction where
  | clientWrite (n : Nat)
  | clientRead (n : Nat)
  | serverRead (n : Nat)
  | serverWrite (n : Nat)

/-- The one `write` of `ethernet_write_keys`, of which the socket takes `n` bytes. -/
def writeKeys (call : HandCall) (dv : Bool) (n : Nat) (p : Party) (stream : Text) :
    Option (Party × Text) :=
  if p.status = .running ∧ n ≤ keyMsgSize call.my.gidIndex dv then
    some (if n = keyMsgSize call.my.gidIndex dv then { p with sent := p.sent + 1 }
      else { p with status := .failed }, stream ++ (ethernetWriteKeys call.my dv).take n)
  else none

/-- `rem_dest` as `ctx_hand_shake` hands it to the reader. -/
def HandCall.remDest (call : HandCall) : PingpongDest :=
  { call.rem with gidIndex := call.my.gidIndex }

/-- The one `read` of `ethernet_read_keys`, which returns `n` of the bytes that have arrived; no
byte is an error or the end of the stream. -/
def readKeys (call : HandCall) (dv : Bool) (n : Nat) (p : Party) (stream : Text) :
    Option (Party × Text) :=
  if p.status = .running ∧ n ≤ stream.length ∧ n ≤ keyMsgSize call.my.gidIndex dv then
    some (match ethernetReadKeys call.remDest dv (stream.take n) with
      | .ok d => { p with decoded := p.decoded ++ [d] }
      | .error .undefined => { p with status := .undefined }
      | .error _ => { p with status := .failed }, stream.drop n)
  else none

/-- `ctx_hand_shake` over the socket: the client writes and then reads, the server reads and then
writes, and a side that failed makes no further call. -/
def HandConfig.act (c : HandConfig) : HandAction → HandState → Option HandState
  | .clientWrite n, s =>
    if s.client.sent = s.client.decoded.length then do
      let call ← c.client[s.client.sent]?
      let (p, stream) ← writeKeys call c.clientDv n s.client s.toServer
      some { s with client := p, toServer := stream }
    else none
  | .clientRead n, s =>
    if s.client.sent = s.client.decoded.length + 1 then do
      let call ← c.client[s.client.decoded.length]?
      let (p, stream) ← readKeys call c.clientDv n s.client s.toClient
      some { s with client := p, toClient := stream }
    else none
  | .serverRead n, s =>
    if s.server.decoded.length = s.server.sent then do
      let call ← c.server[s.server.sent]?
      let (p, stream) ← readKeys call c.serverDv n s.server s.toServer
      some { s with server := p, toServer := stream }
    else none
  | .serverWrite n, s =>
    if s.server.decoded.length = s.server.sent + 1 then do
      let call ← c.server[s.server.sent]?
      let (p, stream) ← writeKeys call c.serverDv n s.server s.toClient
      some { s with server := p, toClient := stream }
    else none

def Party.init : Party := ⟨0, [], .running⟩

def HandState.init : HandState := ⟨.init, .init, [], []⟩

def HandConfig.Reachable (c : HandConfig) : HandState → Prop :=
  Transition.Reachable (· = HandState.init) (Transition.stepOf c.act)

/-- Every destination that the calls of one side decoded is the one its peer passed. -/
def DecodesPeer (mine theirs : List HandCall) (dv dv' : Bool) (decoded : List PingpongDest) :
    Prop :=
  ∀ (k : Nat) (d : PingpongDest), decoded[k]? = some d → ∃ a b : HandCall, mine[k]? = some a ∧ theirs[k]? = some b ∧ dv = dv' ∧
    SameFormat a.my.gidIndex b.my.gidIndex ∧ d = receivedKeys a.remDest b.my dv

/-- The handshakes so far decoded the peer's destinations, and a side that has read every message
of a running peer finds no byte left over. -/
structure HandShakeOk (c : HandConfig) (s : HandState) : Prop where
  defined : s.client.status ≠ .undefined ∧ s.server.status ≠ .undefined
  client_decoded : DecodesPeer c.client c.server c.clientDv c.serverDv s.client.decoded
  server_decoded : DecodesPeer c.server c.client c.serverDv c.clientDv s.server.decoded
  nothing_left : s.client.status = .running → s.server.status = .running →
    (s.server.decoded.length = s.client.sent → s.toServer = []) ∧
      (s.client.decoded.length = s.server.sent → s.toClient = [])

def HandConfig.InRange (c : HandConfig) : Prop :=
  (∀ a ∈ c.client, a.my.InRange) ∧ ∀ b ∈ c.server, b.my.InRange

/-- No client message is longer than the one the server reads for. -/
def HandConfig.ClientFits (c : HandConfig) : Prop :=
  ∀ (k : Nat) (a b : HandCall), c.client[k]? = some a → c.server[k]? = some b →
    keyMsgSize a.my.gidIndex c.clientDv ≤ keyMsgSize b.my.gidIndex c.serverDv

section Reads

variable {call : HandCall} {dv dv' : Bool} {n : Nat} {p p' : Party} {stream stream' : Text}
  {d : PingpongDest}

theorem keyMsgSize_inj {g g' : Int} (h : keyMsgSize g dv = keyMsgSize g' dv') :
    SameFormat g g' ∧ dv = dv' := by
  unfold SameFormat
  by_cases hg : g = -1 <;> by_cases hg' : g' = -1 <;> cases dv <;> cases dv' <;>
    simp [keyMsgSize, hg, hg', KEY_MSG_SIZE, KEY_MSG_SIZE_DV, KEY_MSG_SIZE_GID,
      KEY_MSG_SIZE_GID_DV] at h ⊢

theorem keyMsgSize_pos (g : Int) (dv : Bool) : 0 < keyMsgSize g dv := by
  unfold keyMsgSize
  split <;> split <;> decide

theorem readKeys_running (h : readKeys call dv n p stream = some (p', stream')) :
    p.status = .running := by
  unfold readKeys at h
  split at h
  next hg => exact hg.1
  next => simp at h

/-- Fewer bytes than the message size make the call fail. -/
theorem readKeys_short (hn : n < keyMsgSize call.my.gidIndex dv)
    (h : readKeys call dv n p stream = some (p', stream')) : p' = { p with status := .failed } := by
  unfold readKeys at h
  split at h
  next hg =>
    have hl : (stream.take n).length = n := by
      rw [List.length_take]
      omega
    have he : ethernetReadKeys call.remDest dv (stream.take n) = .error .shortRead := by
      rw [ethernetReadKeys, if_pos]
      rw [hl]
      exact Nat.ne_of_lt hn
    rw [he] at h
    exact (congrArg Prod.fst (Option.some.inj h)).symm
  next => simp at h

/-- A read of a stream that holds the peer's message, or the front of it, decodes the message or
fails. -/
theorem readKeys_spec (hd : d.InRange)
    (hle : keyMsgSize d.gidIndex dv' ≤ keyMsgSize call.my.gidIndex dv)
    (hp : stream <+: ethernetWriteKeys d dv')
    (h : readKeys call dv n p stream = some (p', stream')) :
    p' = { p with status := .failed } ∨
      stream = ethernetWriteKeys d dv' ∧ stream' = [] ∧ dv = dv' ∧
        SameFormat call.my.gidIndex d.gidIndex ∧
        p' = { p with decoded := p.decoded ++ [receivedKeys call.remDest d dv] } := by
  by_cases hn : n < keyMsgSize call.my.gidIndex dv
  · exact Or.inl (readKeys_short hn h)
  · apply Or.inr
    unfold readKeys at h
    split at h
    next hg =>
      have hl := ethernetWriteKeys_length dv' hd
      have hlen := hp.length_le
      have heq : keyMsgSize call.my.gidIndex dv = keyMsgSize d.gidIndex dv' := by omega
      obtain ⟨hf, rfl⟩ := keyMsgSize_inj heq
      have hs : stream = ethernetWriteKeys d dv := hp.eq_of_length (by omega)
      have ht : stream.take n = ethernetWriteKeys d dv := by
        rw [List.take_of_length_le (by omega), hs]
      have hr : ethernetReadKeys call.remDest dv (stream.take n) =
          .ok (receivedKeys call.remDest d dv) := by
        rw [ht]
        exact ethernetReadKeys_written dv hd hf
      rw [hr] at h
      have h1 := congrArg Prod.fst (Option.some.inj h)
      have h2 := congrArg Prod.snd (Option.some.inj h)
      refine ⟨hs, ?_, rfl, hf, h1.symm⟩
      exact h2.symm.trans (List.drop_of_length_le (by omega))
    next => simp at h

theorem writeKeys_cases (h : writeKeys call dv n p stream = some (p', stream')) :
    p.status = .running ∧ stream' = stream ++ (ethernetWriteKeys call.my dv).take n ∧
      (n = keyMsgSize call.my.gidIndex dv ∧ p' = { p with sent := p.sent + 1 } ∨
        n < keyMsgSize call.my.gidIndex dv ∧ p' = { p with status := .failed }) := by
  unfold writeKeys at h
  split at h
  next hg =>
    have h1 := congrArg Prod.fst (Option.some.inj h)
    have h2 := congrArg Prod.snd (Option.some.inj h)
    refine ⟨hg.1, h2.symm, ?_⟩
    by_cases hn : n = keyMsgSize call.my.gidIndex dv
    · exact Or.inl ⟨hn, h1.symm.trans (if_pos hn)⟩
    · exact Or.inr ⟨by omega, h1.symm.trans (if_neg hn)⟩
  next => simp at h

end Reads

/-- The bytes between a writer and a running reader: nothing, the front of a message whose writer
failed, or the one message that was sent and not yet read. -/
def InStream (writer reader : PartyStatus) (msg : Nat → Option Text) (sent got : Nat)
    (stream : Text) : Prop :=
  reader = .running →
    sent = got ∧ (stream = [] ∨
      writer ≠ .running ∧ ∃ m, msg got = some m ∧ stream <+: m ∧ stream.length < m.length) ∨
    sent = got + 1 ∧ msg got = some stream

theorem InStream.of_reader {w r : PartyStatus} {msg : Nat → Option Text} {sent got : Nat}
    {stream : Text} (h : r ≠ .running) : InStream w r msg sent got stream :=
  fun hr => absurd hr h

/-- A writer that fails leaves the stream, and more messages may be announced. -/
theorem InStream.mono {w w' r : PartyStatus} {msg msg' : Nat → Option Text} {sent got : Nat}
    {stream : Text} (h : InStream w r msg sent got stream) (hw : w ≠ .running → w' ≠ .running)
    (hm : ∀ m, msg got = some m → msg' got = some m) : InStream w' r msg' sent got stream := by
  intro hr
  rcases h hr with ⟨he, hn | ⟨hf, m, hg, hp⟩⟩ | ⟨he, hg⟩
  · exact Or.inl ⟨he, Or.inl hn⟩
  · exact Or.inl ⟨he, Or.inr ⟨hw hf, m, hm m hg, hp⟩⟩
  · exact Or.inr ⟨he, hm _ hg⟩

theorem failed_ne : PartyStatus.failed ≠ .running ∧ PartyStatus.failed ≠ .undefined := by decide

section Writes

variable {w r : PartyStatus} {msg : Nat → Option Text} {sent got n : Nat} {stream m : Text}

theorem InStream.sent_all (he : r = .running → sent = got ∧ stream = [])
    (hm : msg sent = some m) (hn : m.length ≤ n) :
    InStream w r msg (sent + 1) got (stream ++ m.take n) := by
  intro hr
  obtain ⟨hs, rfl⟩ := he hr
  refine Or.inr ⟨by omega, ?_⟩
  rw [List.nil_append, List.take_of_length_le hn, ← hs, hm]

theorem InStream.sent_part (he : r = .running → sent = got ∧ stream = [])
    (hm : msg sent = some m) (hn : n < m.length) :
    InStream .failed r msg sent got (stream ++ m.take n) := by
  intro hr
  obtain ⟨hs, rfl⟩ := he hr
  refine Or.inl ⟨hs, Or.inr ⟨failed_ne.1, m, ?_, ?_, ?_⟩⟩
  · rw [← hs, hm]
  · exact List.take_prefix n m
  · rw [List.nil_append, List.length_take]
    omega

end Writes

theorem DecodesPeer.append {mine theirs : List HandCall} {dv dv' : Bool}
    {decoded : List PingpongDest} {a b : HandCall} (h : DecodesPeer mine theirs dv dv' decoded)
    (ha : mine[decoded.length]? = some a) (hb : theirs[decoded.length]? = some b) (hv : dv = dv')
    (hf : SameFormat a.my.gidIndex b.my.gidIndex) :
    DecodesPeer mine theirs dv dv' (decoded ++ [receivedKeys a.remDest b.my dv]) := by
  intro k d hk
  rcases Nat.lt_or_ge k decoded.length with hlt | hge
  · rw [List.getElem?_append_left hlt] at hk
    exact h k d hk
  · rw [List.getElem?_append_right hge] at hk
    obtain ⟨hz, hd⟩ := List.getElem?_eq_some_iff.mp hk
    have hkl : k = decoded.length := by
      simp only [List.length_singleton] at hz
      omega
    subst hkl
    exact ⟨a, b, ha, hb, hv, hf, by simpa using hd.symm⟩

namespace HandConfig

/-- The client's messages. -/
def clientMsg (c : HandConfig) (k : Nat) : Option Text :=
  c.client[k]?.map fun a => ethernetWriteKeys a.my c.clientDv

/-- The server's messages, each behind the read of the same handshake. -/
def serverMsg (c : HandConfig) (decoded k : Nat) : Option Text :=
  if k < decoded then c.server[k]?.map fun b => ethernetWriteKeys b.my c.serverDv else none

structure Inv (c : HandConfig) (s : HandState) : Prop where
  client_phase : s.client.decoded.length ≤ s.client.sent ∧
    s.client.sent ≤ s.client.decoded.length + 1
  server_phase : s.server.sent ≤ s.server.decoded.length ∧
    s.server.decoded.length ≤ s.server.sent + 1
  to_server : InStream s.client.status s.server.status c.clientMsg s.client.sent
    s.server.decoded.length s.toServer
  to_client : InStream s.server.status s.client.status (c.serverMsg s.server.decoded.length)
    s.server.sent s.client.decoded.length s.toClient
  defined : s.client.status ≠ .undefined ∧ s.server.status ≠ .undefined
  client_decoded : DecodesPeer c.client c.server c.clientDv c.serverDv s.client.decoded
  server_decoded : DecodesPeer c.server c.client c.serverDv c.clientDv s.server.decoded

theorem Inv.init (c : HandConfig) : c.Inv .init :=
  { client_phase := by decide
    server_phase := by decide
    to_server := fun _ => Or.inl ⟨rfl, Or.inl rfl⟩
    to_client := fun _ => Or.inl ⟨rfl, Or.inl rfl⟩
    defined := by decide
    client_decoded := by
      intro k d h
      simp [HandState.init, Party.init] at h
    server_decoded := by
      intro k d h
      simp [HandState.init, Party.init] at h }

variable {c : HandConfig} {s t : HandState}

theorem Inv.ok (h : c.Inv s) : HandShakeOk c s := by
  refine ⟨h.defined, h.client_decoded, h.server_decoded, fun hc hs => ⟨fun he => ?_, fun he => ?_⟩⟩
  · rcases h.to_server hs with ⟨-, hn | ⟨hw, -⟩⟩ | ⟨hlt, -⟩
    · exact hn
    · exact absurd hc hw
    · omega
  · rcases h.to_client hc with ⟨-, hn | ⟨hw, -⟩⟩ | ⟨hlt, -⟩
    · exact hn
    · exact absurd hs hw
    · omega

theorem readKeys_nil {call : HandCall} {dv : Bool} {n : Nat} {p p' : Party} {stream : Text}
    (h : readKeys call dv n p [] = some (p', stream)) : p' = { p with status := .failed } := by
  have hp := keyMsgSize_pos call.my.gidIndex dv
  by_cases hn : n = 0
  · exact readKeys_short (by omega) h
  · unfold readKeys at h
    split at h
    next hg => exact absurd (Nat.le_zero.mp hg.2.1) hn
    next => simp at h

theorem Inv.clientWrite (hr : c.InRange) (h : c.Inv s) {n : Nat}
    (ha : c.act (.clientWrite n) s = some t) : c.Inv t := by
  simp only [act] at ha
  split at ha
  next hphase =>
    obtain ⟨call, hcall, ha⟩ := Option.bind_eq_some_iff.mp ha
    obtain ⟨⟨p, stream⟩, hw, ha⟩ := Option.bind_eq_some_iff.mp ha
    rw [← Option.some.inj ha]
    obtain ⟨hrun, rfl, hp⟩ := writeKeys_cases hw
    have hlen := ethernetWriteKeys_length c.clientDv (hr.1 call (List.mem_of_getElem? hcall))
    have hmsg : c.clientMsg s.client.sent = some (ethernetWriteKeys call.my c.clientDv) := by
      rw [clientMsg, hcall]
      rfl
    have hempty : s.server.status = .running →
        s.client.sent = s.server.decoded.length ∧ s.toServer = [] := by
      intro hs
      rcases h.to_server hs with ⟨he, hn | ⟨hf, -⟩⟩ | ⟨he, -⟩
      · exact ⟨he, hn⟩
      · exact absurd hrun hf
      · have h1 := h.server_phase.1
        rcases h.to_client hrun with ⟨he', -⟩ | ⟨he', -⟩ <;> omega
    rcases hp with ⟨hn, rfl⟩ | ⟨hn, rfl⟩
    · refine { h with
        client_phase := ?_, to_server := InStream.sent_all hempty hmsg (by omega) }
      have := h.client_phase
      dsimp only
      omega
    · exact { h with
        to_server := InStream.sent_part hempty hmsg (by omega)
        to_client := InStream.of_reader failed_ne.1
        defined := ⟨failed_ne.2, h.defined.2⟩ }
  next => simp at ha

theorem Inv.serverWrite (hr : c.InRange) (h : c.Inv s) {n : Nat}
    (ha : c.act (.serverWrite n) s = some t) : c.Inv t := by
  simp only [act] at ha
  split at ha
  next hphase =>
    obtain ⟨call, hcall, ha⟩ := Option.bind_eq_some_iff.mp ha
    obtain ⟨⟨p, stream⟩, hw, ha⟩ := Option.bind_eq_some_iff.mp ha
    rw [← Option.some.inj ha]
    obtain ⟨hrun, rfl, hp⟩ := writeKeys_cases hw
    have hlen := ethernetWriteKeys_length c.serverDv (hr.2 call (List.mem_of_getElem? hcall))
    have hmsg : c.serverMsg s.server.decoded.length s.server.sent =
        some (ethernetWriteKeys call.my c.serverDv) := by
      rw [serverMsg, if_pos (by omega), hcall]
      rfl
    have hempty : s.client.status = .running →
        s.server.sent = s.client.decoded.length ∧ s.toClient = [] := by
      intro hs
      rcases h.to_client hs with ⟨he, hn | ⟨hf, -⟩⟩ | ⟨he, -⟩
      · exact ⟨he, hn⟩
      · exact absurd hrun hf
      · have h1 := h.client_phase.2
        rcases h.to_server hrun with ⟨he', -⟩ | ⟨he', -⟩ <;> omega
    rcases hp with ⟨hn, rfl⟩ | ⟨hn, rfl⟩
    · refine { h with
        server_phase := ?_, to_client := InStream.sent_all hempty hmsg (by omega) }
      dsimp only
      omega
    · exact { h with
        to_client := InStream.sent_part hempty hmsg (by omega)
        to_server := InStream.of_reader failed_ne.1
        defined := ⟨h.defined.1, failed_ne.2⟩ }
  next => simp at ha

theorem Inv.client_failed (h : c.Inv s) (stream : Text) :
    c.Inv { s with client := { s.client with status := .failed }, toClient := stream } :=
  { h with
    to_server := h.to_server.mono (fun _ => failed_ne.1) (fun _ hm => hm)
    to_client := InStream.of_reader failed_ne.1
    defined := ⟨failed_ne.2, h.defined.2⟩ }

theorem Inv.server_failed (h : c.Inv s) (stream : Text) :
    c.Inv { s with server := { s.server with status := .failed }, toServer := stream } :=
  { h with
    to_client := h.to_client.mono (fun _ => failed_ne.1) (fun _ hm => hm)
    to_server := InStream.of_reader failed_ne.1
    defined := ⟨h.defined.1, failed_ne.2⟩ }

/-- The server wrote a message only for a handshake whose client message it decoded, so the
formats agree. -/
theorem Inv.serverMsg_spec (h : c.Inv s) {k : Nat} {m : Text}
    (hm : c.serverMsg s.server.decoded.length k = some m) :
    ∃ a b : HandCall, c.client[k]? = some a ∧ c.server[k]? = some b ∧
      m = ethernetWriteKeys b.my c.serverDv ∧
      keyMsgSize b.my.gidIndex c.serverDv = keyMsgSize a.my.gidIndex c.clientDv := by
  unfold serverMsg at hm
  split at hm
  next hk =>
    obtain ⟨b, hb, rfl⟩ := Option.map_eq_some_iff.mp hm
    obtain ⟨b', a, hb', ha, hv, hf, -⟩ := h.server_decoded k _ (List.getElem?_eq_getElem hk)
    rw [hb] at hb'
    rw [← Option.some.inj hb'] at hf
    refine ⟨a, b, ha, hb, rfl, ?_⟩
    rw [hv]
    exact keyMsgSize_congr _ hf
  next => simp at hm

theorem Inv.clientRead (hr : c.InRange) (h : c.Inv s) {n : Nat}
    (ha : c.act (.clientRead n) s = some t) : c.Inv t := by
  simp only [act] at ha
  split at ha
  next hphase =>
    obtain ⟨call, hcall, ha⟩ := Option.bind_eq_some_iff.mp ha
    obtain ⟨⟨p, stream⟩, hrd, ha⟩ := Option.bind_eq_some_iff.mp ha
    rw [← Option.some.inj ha]
    rcases h.to_client (readKeys_running hrd) with ⟨he, hn | ⟨-, m, hm, hp, hlt⟩⟩ | ⟨he, hm⟩
    · rw [hn] at hrd
      rw [readKeys_nil hrd]
      exact h.client_failed stream
    · obtain ⟨a, b, hca, hb, rfl, hsize⟩ := h.serverMsg_spec hm
      rw [hcall] at hca
      rw [← Option.some.inj hca] at hsize
      have hin := hr.2 b (List.mem_of_getElem? hb)
      rcases readKeys_spec hin hsize.le hp hrd with rfl | ⟨hs, -⟩
      · exact h.client_failed stream
      · rw [hs] at hlt
        omega
    · obtain ⟨a, b, hca, hb, hmb, hsize⟩ := h.serverMsg_spec hm
      rw [hcall] at hca
      rw [← Option.some.inj hca] at hsize
      have hin := hr.2 b (List.mem_of_getElem? hb)
      rcases readKeys_spec hin hsize.le (hmb ▸ List.prefix_rfl) hrd with
        rfl | ⟨-, rfl, hv, hf, rfl⟩
      · exact h.client_failed stream
      · refine { h with client_phase := ?_, to_client := ?_, client_decoded := ?_ }
        · dsimp only
          rw [List.length_append, List.length_singleton]
          omega
        · intro _
          refine Or.inl ⟨?_, Or.inl rfl⟩
          dsimp only
          rw [List.length_append, List.length_singleton]
          exact he
        · exact h.client_decoded.append hcall hb hv hf
  next => simp at ha

theorem Inv.serverRead (hr : c.InRange) (hfit : c.ClientFits) (h : c.Inv s) {n : Nat}
    (ha : c.act (.serverRead n) s = some t) : c.Inv t := by
  simp only [act] at ha
  split at ha
  next hphase =>
    obtain ⟨call, hcall, ha⟩ := Option.bind_eq_some_iff.mp ha
    obtain ⟨⟨p, stream⟩, hrd, ha⟩ := Option.bind_eq_some_iff.mp ha
    rw [← Option.some.inj ha]
    rw [← hphase] at hcall
    rcases h.to_server (readKeys_running hrd) with ⟨he, hn | ⟨-, m, hm, hp, hlt⟩⟩ | ⟨he, hm⟩
    · rw [hn] at hrd
      rw [readKeys_nil hrd]
      exact h.server_failed stream
    · obtain ⟨a, hca, rfl⟩ := Option.map_eq_some_iff.mp hm
      have hin := hr.1 a (List.mem_of_getElem? hca)
      rcases readKeys_spec hin (hfit _ a call hca hcall) hp hrd with rfl | ⟨hs, -⟩
      · exact h.server_failed stream
      · rw [hs] at hlt
        omega
    · obtain ⟨a, hca, hmb⟩ := Option.map_eq_some_iff.mp hm
      have hin := hr.1 a (List.mem_of_getElem? hca)
      rcases readKeys_spec hin (hfit _ a call hca hcall) (hmb ▸ List.prefix_rfl) hrd with
        rfl | ⟨-, rfl, hv, hf, rfl⟩
      · exact h.server_failed stream
      · refine { h with server_phase := ?_, to_server := ?_, to_client := ?_, server_decoded := ?_ }
        · dsimp only
          rw [List.length_append, List.length_singleton]
          omega
        · intro _
          refine Or.inl ⟨?_, Or.inl rfl⟩
          dsimp only
          rw [List.length_append, List.length_singleton]
          exact he
        · refine h.to_client.mono (fun hw => hw) fun m hk => ?_
          unfold serverMsg at hk ⊢
          split at hk
          next hlt =>
            rw [if_pos]
            · exact hk
            · dsimp only
              rw [List.length_append]
              omega
          next => simp at hk
        · exact h.server_decoded.append hcall hca hv hf
  next => simp at ha

theorem Inv.of_reachable (hr : c.InRange) (hfit : c.ClientFits) (h : c.Reachable s) :
    c.Inv s := by
  refine Transition.Reachable.invariant ?_ ?_ h
  · rintro s rfl
    exact Inv.init c
  · rintro s t hi ⟨a, ha⟩
    cases a with
    | clientWrite n => exact hi.clientWrite hr ha
    | clientRead n => exact hi.clientRead hr ha
    | serverRead n => exact hi.serverRead hr hfit ha
    | serverWrite n => exact hi.serverWrite hr ha

end HandConfig

/-- However the two streams are cut, handshakes whose client messages are not longer than the ones
the server reads for decode the peer's destinations or fail. -/
theorem ctxHandShake_decodes (c : HandConfig) (hr : c.InRange) (hfit : c.ClientFits)
    (s : HandState) (hs : c.Reachable s) : HandShakeOk c s :=
  (HandConfig.Inv.of_reachable hr hfit hs).ok

/-- A destination of a link-local GID. -/
def sampleKeys (gidIndex : Int) : PingpongDest :=
  { lid := 1, outReads := 1, qpn := 2, psn := 3, rkey := 4, vaddr := 4096, tailMarkersVaddr := 0
    gid := fun i => if i.val = 0 then 254 else if i.val = 1 then 128 else 0, srqn := 7
    gidIndex := gidIndex }

def sampleConfig (clientGid serverGid : Int) : HandConfig :=
  { client := [⟨sampleKeys clientGid, sampleKeys (-1)⟩]
    server := [⟨sampleKeys serverGid, sampleKeys (-1)⟩]
    clientDv := false, serverDv := false }

theorem sampleKeys_inRange (g : Int) : (sampleKeys g).InRange :=
  ⟨show (1 : UInt32).toNat < 2 ^ 16 by decide, show (1 : UInt32).toNat < 2 ^ 16 by decide,
    show (2 : UInt32).toNat < 2 ^ 24 by decide, show (3 : UInt32).toNat < 2 ^ 24 by decide⟩

theorem sampleConfig_inRange (g g' : Int) : (sampleConfig g g').InRange := by
  refine ⟨fun a ha => ?_, fun b hb => ?_⟩
  · rw [List.mem_singleton.mp ha]
    exact sampleKeys_inRange g
  · rw [List.mem_singleton.mp hb]
    exact sampleKeys_inRange g'

theorem sampleConfig_ends : ∃ s, (sampleConfig 0 0).Reachable s ∧ s.client.decoded.length = 1 := by
  obtain ⟨t, ht, hp⟩ := Transition.exists_of_run (· = HandState.init) (sampleConfig 0 0).act
    [.clientWrite 108, .serverRead 108, .serverWrite 108, .clientRead 108] .init
    (fun s => s.client.decoded.length = 1) rfl (by decide +kernel)
  exact ⟨t, ht, by simpa using hp⟩

theorem sampleConfig_decodes : ∃ s, (sampleConfig 0 0).Reachable s ∧
    s.client.decoded = [sampleKeys 0] := by
  obtain ⟨s, hs, hl⟩ := sampleConfig_ends
  have hok := ctxHandShake_decodes (sampleConfig 0 0) (sampleConfig_inRange 0 0)
    (fun k a b ha hb => by
      cases k with
      | zero =>
        rw [← Option.some.inj ha, ← Option.some.inj hb]
        exact le_rfl
      | succ k => simp [sampleConfig] at ha) s hs
  refine ⟨s, hs, ?_⟩
  obtain ⟨d, hd⟩ := List.length_eq_one_iff.mp hl
  obtain ⟨a, b, ha, hb, -, -, hrec⟩ := hok.client_decoded 0 d (by rw [hd]; rfl)
  rw [hd, hrec, ← Option.some.inj ha, ← Option.some.inj hb]
  rfl

/-- A client with a GID index and a server without one: the server reads 59 of the 108 bytes and
takes the first GID byte for the SRQ number. -/
theorem mixedFormats_decoded : ∃ s, (sampleConfig 0 (-1)).Reachable s ∧
    s.server.decoded.map (fun d => d.srqn) = [254] ∧ s.toServer.length = 49 := by
  obtain ⟨t, ht, hp⟩ := Transition.exists_of_run (· = HandState.init) (sampleConfig 0 (-1)).act
    [.clientWrite 108, .serverRead 59] .init
    (fun s => s.server.decoded.map (fun d => d.srqn) = [254] ∧ s.toServer.length = 49) rfl
    (by decide +kernel)
  exact ⟨t, ht, by simpa using hp⟩

theorem mixedFormats_not_ok : (sampleConfig 0 (-1)).InRange ∧
    ¬ ∀ s, (sampleConfig 0 (-1)).Reachable s → HandShakeOk (sampleConfig 0 (-1)) s := by
  refine ⟨sampleConfig_inRange 0 (-1), fun h => ?_⟩
  obtain ⟨s, hs, hd, -⟩ := mixedFormats_decoded
  obtain ⟨d, hm⟩ := List.length_eq_one_iff.mp
    (show s.server.decoded.length = 1 by simpa using congrArg List.length hd)
  obtain ⟨a, b, ha, hb, -, hf, -⟩ := (h s hs).server_decoded 0 d (by rw [hm]; rfl)
  rw [← Option.some.inj ha, ← Option.some.inj hb] at hf
  exact absurd (hf.mp rfl) (by decide)

end Perftest
