import ArmoniOS.Net.DhcpOptions

/-!
The DHCP client: from received Ethernet frames to the configured lease.

A run is a sequence of `net_poll` calls, each with the frames the driver hands out until it has
none left. An ACK binds the client. An OFFER writes the same fields, whatever state the client
is in.
-/
namespace Net
open List Option

def ethTypeIp : ℕ := 0x0800
def ipProtoUdp : UInt8 := 17
def dhcpOffer : UInt8 := 2
def dhcpAck : UInt8 := 5
def dhcpPortClient : ℕ := 68

/-- `sizeof(dhcp_packet_t)`. -/
def dhcpPacketSize : ℕ := 548

/-- The fields of `net_info_t` that the client reads back. -/
structure NetInfo where
  ip : UInt32
  subnet : UInt32
  gateway : UInt32
  dns : UInt32
  dhcpServer : UInt32
  dhcpState : UInt8
  discovered : Bool
  deriving DecidableEq, Repr

inductive Sent where
  | discover
  | request (serverIp requestedIp : UInt32)
  deriving DecidableEq, Repr

/-- The globals of `dhcp.c`, with the address and the ready flag of `g_net_dev`. -/
structure Client where
  info : NetInfo
  inited : Bool
  polling : Bool
  ready : Bool
  mac : Fin 6 → UInt8
  xid : UInt32
  sent : List Sent

structure Frame where
  data : Bytes
  len : ℕ

def Bytes.le32 (data : Bytes) : UInt32 :=
  (data 0).toUInt32 + (data 1).toUInt32 * 2 ^ 8 + (data 2).toUInt32 * 2 ^ 16 +
    (data 3).toUInt32 * 2 ^ 24

def getIpAddr (addr : Bytes) : UInt32 :=
  (addr 0).toUInt32 ||| (addr 1).toUInt32 <<< 8 ||| (addr 2).toUInt32 <<< 16 |||
    (addr 3).toUInt32 <<< 24

/-- The fields of `dhcp_packet_t` that the client reads, at their offsets. -/
structure DhcpPacket where
  op : UInt8
  xid : UInt32
  yiaddr : Bytes
  options : Bytes

def dhcpPacketAt (data : Bytes) : DhcpPacket where
  op := data 0
  xid := (data.advance 4).le32
  yiaddr := data.advance 16
  options := data.advance 236

def parseDhcpOffer (net : Client) (pkt : DhcpPacket) (options : DhcpOptions) : Client :=
  { net with
    info := { net.info with
      ip := getIpAddr pkt.yiaddr
      dhcpState := if options.messageType = dhcpOffer then dhcpOffer else net.info.dhcpState
      dhcpServer :=
        if options.flags &&& hasServerId ≠ 0 then options.serverId else net.info.dhcpServer } }

def parseDhcpAck (net : Client) (pkt : DhcpPacket) (options : DhcpOptions) : Client :=
  { net with
    info :=
      { ip := getIpAddr pkt.yiaddr
        dhcpState := if options.messageType = dhcpAck then dhcpAck else net.info.dhcpState
        discovered := if options.messageType = dhcpAck then true else net.info.discovered
        subnet := if options.flags &&& hasSubnet ≠ 0 then options.subnet else net.info.subnet
        gateway := if options.flags &&& hasGateway ≠ 0 then options.gateway else net.info.gateway
        dns := if options.flags &&& hasDns ≠ 0 then options.dns else net.info.dns
        dhcpServer :=
          if options.flags &&& hasServerId ≠ 0 then options.serverId
          else net.info.dhcpServer } }

def parseUdpPacket (net : Client) (data : Bytes) (len : ℕ) : Client :=
  if len < 8 then net
  else if (data 2).toNat * 2 ^ 8 + (data 3).toNat ≠ dhcpPortClient then net
  else
    let pkt := dhcpPacketAt (data.advance 8)
    if len - 8 < dhcpPacketSize then net
    else if pkt.op ≠ 2 ∨ pkt.xid ≠ net.xid then net
    else
      match dhcpOptionsParse pkt.options dhcpOptionsLen with
      | none => net
      | some options =>
        if options.messageType = dhcpOffer then parseDhcpOffer net pkt options
        else if options.messageType = dhcpAck then parseDhcpAck net pkt options
        else net

/-- `(data[0] & 0x0f) * 4`. -/
def ipHeaderLen (data : Bytes) : ℕ := (data 0 &&& 0x0f).toNat * 4

def parseIpPacket (net : Client) (data : Bytes) (len : ℕ) : Client :=
  if len < 20 then net
  else if data 0 &&& 0xf0 ≠ 0x40 then net
  else if ipHeaderLen data < 20 ∨ len < ipHeaderLen data then net
  else if data 9 = ipProtoUdp then
    parseUdpPacket net (data.advance (ipHeaderLen data)) (len - ipHeaderLen data)
  else net

def addressedTo (mac : Fin 6 → UInt8) (data : Bytes) : Bool :=
  decide (∀ i : Fin 6, data i = mac i) || decide (∀ i : Fin 6, data i = 0xff)

def parseEthFrame (net : Client) (data : Bytes) (len : ℕ) : Client :=
  if len < 14 then net
  else if addressedTo net.mac data = false then net
  else if (data 12).toNat * 2 ^ 8 + (data 13).toNat = ethTypeIp then
    parseIpPacket net (data.advance 14) (len - 14)
  else net

def sendDhcpDiscover (net : Client) : Client := { net with sent := net.sent ++ [.discover] }

def sendDhcpRequest (net : Client) (serverIp requestedIp : UInt32) : Client :=
  { net with sent := net.sent ++ [.request serverIp requestedIp] }

/-- `net_init`, given the card the probe found and its driver initialised (`none` when one of the
two failed), and the address of `g_net_dev`, which salts the transaction id. -/
def netInit (net : Client) (card : Option (Fin 6 → UInt8)) (deviceAddr : ℕ) : ℤ × Client :=
  match card with
  | none => (-1, net)
  | some mac =>
    (0, sendDhcpDiscover
      { net with
        info := ⟨0, 0, 0, 0, 0, 0, false⟩
        inited := true
        ready := true
        mac := mac
        xid := 0x12345678 + UInt32.ofNat (deviceAddr % 2 ^ 16) })

/-- The receive loop of `net_poll` over the frames the driver returns. -/
def receiveLoop (net : Client) (frames : List Frame) : Client :=
  frames.foldl (fun net frame => parseEthFrame net frame.data frame.len) net

def netPoll (net : Client) (frames : List Frame) : Client :=
  if !net.inited || !net.ready then net
  else if net.polling then net
  else
    let net := receiveLoop { net with polling := true } frames
    let net :=
      if !net.info.discovered then
        if net.info.dhcpState = dhcpOffer then
          sendDhcpRequest net net.info.dhcpServer net.info.ip
        else net
      else net
    { net with polling := false }

def netPolls (net : Client) (polls : List (List Frame)) : Client := polls.foldl netPoll net

/-- The globals before `net_init`. -/
def Client.boot : Client := ⟨⟨0, 0, 0, 0, 0, 0, false⟩, false, false, false, fun _ => 0, 0, []⟩

/-- The client after a `net_init` that found a card. -/
def Client.started (mac : Fin 6 → UInt8) (deviceAddr : ℕ) : Client :=
  (netInit Client.boot (some mac) deviceAddr).2

/-! ### The reply in a frame -/

def udpReply (xid : UInt32) (data : Bytes) (len : ℕ) : Option (DhcpPacket × DhcpOptions) :=
  let pkt := dhcpPacketAt (data.advance 8)
  if 8 + dhcpPacketSize ≤ len ∧ (data 2).toNat * 2 ^ 8 + (data 3).toNat = dhcpPortClient ∧
      pkt.op = 2 ∧ pkt.xid = xid then
    (dhcpOptionsParse pkt.options dhcpOptionsLen).map fun options => (pkt, options)
  else none

def ipReply (xid : UInt32) (data : Bytes) (len : ℕ) : Option (DhcpPacket × DhcpOptions) :=
  if data 0 &&& 0xf0 = 0x40 ∧ 20 ≤ ipHeaderLen data ∧ ipHeaderLen data ≤ len ∧
      data 9 = ipProtoUdp then
    udpReply xid (data.advance (ipHeaderLen data)) (len - ipHeaderLen data)
  else none

/-- The DHCP reply that a client with this address and transaction id accepts from a frame. -/
def Frame.reply (frame : Frame) (mac : Fin 6 → UInt8) (xid : UInt32) :
    Option (DhcpPacket × DhcpOptions) :=
  if 14 ≤ frame.len ∧ addressedTo mac frame.data = true ∧
      (frame.data 12).toNat * 2 ^ 8 + (frame.data 13).toNat = ethTypeIp then
    ipReply xid (frame.data.advance 14) (frame.len - 14)
  else none

def Client.handle (net : Client) : Option (DhcpPacket × DhcpOptions) → Client
  | none => net
  | some (pkt, options) =>
    if options.messageType = dhcpOffer then parseDhcpOffer net pkt options
    else if options.messageType = dhcpAck then parseDhcpAck net pkt options
    else net

variable (net : Client)

theorem parseUdpPacket_eq (data : Bytes) (len : ℕ) :
    parseUdpPacket net data len = net.handle (udpReply net.xid data len) := by
  by_cases hlen : 8 + dhcpPacketSize ≤ len
  · unfold parseUdpPacket udpReply
    rw [if_neg (by omega)]
    by_cases hport : (data 2).toNat * 2 ^ 8 + (data 3).toNat = dhcpPortClient
    · rw [if_neg (not_not.mpr hport), if_neg (by omega)]
      by_cases hmatch : (dhcpPacketAt (data.advance 8)).op = 2 ∧
          (dhcpPacketAt (data.advance 8)).xid = net.xid
      · rw [if_neg (by tauto), if_pos ⟨hlen, hport, hmatch⟩]
        cases dhcpOptionsParse (dhcpPacketAt (data.advance 8)).options dhcpOptionsLen with
        | none => rfl
        | some options => rfl
      · rw [if_pos (by tauto), if_neg (by tauto)]
        rfl
    · rw [if_pos hport, if_neg (by tauto)]
      rfl
  · have hnone : udpReply net.xid data len = none := if_neg fun h => hlen h.1
    rw [hnone]
    unfold parseUdpPacket
    by_cases hshort : len < 8
    · exact if_pos hshort
    · rw [if_neg hshort, if_pos (show len - 8 < dhcpPacketSize by omega), ite_self]
      rfl

theorem parseIpPacket_eq (data : Bytes) (len : ℕ) :
    parseIpPacket net data len = net.handle (ipReply net.xid data len) := by
  unfold parseIpPacket ipReply
  by_cases h : data 0 &&& 0xf0 = 0x40 ∧ 20 ≤ ipHeaderLen data ∧ ipHeaderLen data ≤ len ∧
      data 9 = ipProtoUdp
  · obtain ⟨hver, hhead, hroom, hproto⟩ := h
    rw [if_neg (by omega), if_neg (not_not.mpr hver), if_neg (by omega), if_pos hproto,
      if_pos ⟨hver, hhead, hroom, hproto⟩]
    exact parseUdpPacket_eq net _ _
  · split_ifs with h1 h2 h3 h4
    · rfl
    · rfl
    · rfl
    · exact absurd ⟨not_not.mp h2, by omega, by omega, h4⟩ h
    · rfl

theorem parseEthFrame_eq (frame : Frame) :
    parseEthFrame net frame.data frame.len = net.handle (frame.reply net.mac net.xid) := by
  unfold parseEthFrame Frame.reply
  by_cases h : 14 ≤ frame.len ∧ addressedTo net.mac frame.data = true ∧
      (frame.data 12).toNat * 2 ^ 8 + (frame.data 13).toNat = ethTypeIp
  · obtain ⟨hlen, haddr, htype⟩ := h
    rw [if_neg (by omega), if_neg (by simp [haddr]), if_pos htype, if_pos ⟨hlen, haddr, htype⟩]
    exact parseIpPacket_eq net _ _
  · split_ifs with h1 h2 h3
    · rfl
    · rfl
    · exact absurd ⟨by omega, by simpa using h2, h3⟩ h
    · rfl

/-! ### What one frame can do -/

def Frame.ackAddress (frame : Frame) (mac : Fin 6 → UInt8) (xid : UInt32) : Option UInt32 :=
  match frame.reply mac xid with
  | none => none
  | some (pkt, options) =>
    if options.messageType = dhcpAck then some (getIpAddr pkt.yiaddr) else none

def Frame.isOffer (frame : Frame) (mac : Fin 6 → UInt8) (xid : UInt32) : Bool :=
  match frame.reply mac xid with
  | none => false
  | some (_, options) => options.messageType == dhcpOffer

def lastAck (mac : Fin 6 → UInt8) (xid : UInt32) (frames : List Frame) : Option UInt32 :=
  (frames.filterMap fun frame => frame.ackAddress mac xid).getLast?

structure NetInfo.Bound (info : NetInfo) (addr : UInt32) : Prop where
  ip : info.ip = addr
  state : info.dhcpState = dhcpAck
  discovered : info.discovered = true

structure Client.Alike (a b : Client) : Prop where
  info : a.info = b.info
  mac : a.mac = b.mac
  xid : a.xid = b.xid

theorem Client.Alike.refl : net.Alike net := ⟨rfl, rfl, rfl⟩

theorem Client.Alike.trans {a b c : Client} (h : a.Alike b) (h' : b.Alike c) : a.Alike c :=
  ⟨h.info.trans h'.info, h.mac.trans h'.mac, h.xid.trans h'.xid⟩

inductive FrameEffect (frame : Frame) (net : Client) : Client → Prop
  | offer {info : NetInfo} (ho : frame.isOffer net.mac net.xid = true)
      (ha : frame.ackAddress net.mac net.xid = none) (hs : info.dhcpState = dhcpOffer) :
      FrameEffect frame net { net with info := info }
  | ack {info : NetInfo} {addr : UInt32} (ho : frame.isOffer net.mac net.xid = false)
      (ha : frame.ackAddress net.mac net.xid = some addr) (hb : info.Bound addr) :
      FrameEffect frame net { net with info := info }
  | other (ho : frame.isOffer net.mac net.xid = false)
      (ha : frame.ackAddress net.mac net.xid = none) : FrameEffect frame net net

section
variable {frame : Frame} {net net' : Client} (h : FrameEffect frame net net')
include h

theorem FrameEffect.card : net'.inited = net.inited ∧ net'.ready = net.ready ∧ net'.mac = net.mac ∧
      net'.xid = net.xid := by
  cases h <;> exact ⟨rfl, rfl, rfl, rfl⟩

theorem FrameEffect.offered (ho : frame.isOffer net.mac net.xid = true) :
    frame.ackAddress net.mac net.xid = none ∧ net'.info.dhcpState = dhcpOffer := by
  cases h with
  | offer _ ha hs => exact ⟨ha, hs⟩
  | ack ho' _ _ => rw [ho] at ho'; cases ho'
  | other ho' _ => rw [ho] at ho'; cases ho'

end

theorem parseEthFrame_effect (net : Client) (frame : Frame) :
    FrameEffect frame net (parseEthFrame net frame.data frame.len) := by
  rw [parseEthFrame_eq]
  cases hr : frame.reply net.mac net.xid with
  | none =>
    apply FrameEffect.other
    · simp only [Frame.isOffer, hr]
    · simp only [Frame.ackAddress, hr]
  | some reply =>
    unfold Client.handle
    dsimp only
    split_ifs with ho ha
    · apply FrameEffect.offer
      · simp only [Frame.isOffer, hr, ho, BEq.rfl]
      · simp only [Frame.ackAddress, hr, ho]
        rfl
      · exact if_pos ho
    · apply FrameEffect.ack
      · simp only [Frame.isOffer, hr]
        exact beq_eq_false_iff_ne.mpr ho
      · simp only [Frame.ackAddress, hr]
        exact if_pos ha
      · exact ⟨rfl, if_pos ha, if_pos ha⟩
    · apply FrameEffect.other
      · simp only [Frame.isOffer, hr]
        exact beq_eq_false_iff_ne.mpr ho
      · simp only [Frame.ackAddress, hr]
        exact if_neg ha

theorem parseEthFrame_alike {a b : Client} (h : a.Alike b) (frame : Frame) :
    (parseEthFrame a frame.data frame.len).Alike (parseEthFrame b frame.data frame.len) := by
  rw [parseEthFrame_eq, parseEthFrame_eq, h.mac, h.xid]
  cases frame.reply b.mac b.xid with
  | none => exact h
  | some reply =>
    unfold Client.handle
    dsimp only
    split_ifs
    · exact ⟨by simp only [parseDhcpOffer, h.info], h.mac, h.xid⟩
    · exact ⟨by simp only [parseDhcpAck, h.info], h.mac, h.xid⟩
    · exact h


/-! ### Runs -/

theorem receiveLoop_append (net : Client) (frames more : List Frame) :
    receiveLoop net (frames ++ more) = receiveLoop (receiveLoop net frames) more :=
  foldl_append

theorem receiveLoop_alike {a b : Client} (h : a.Alike b) (frames : List Frame) :
    (receiveLoop a frames).Alike (receiveLoop b frames) := by
  induction frames generalizing a b with
  | nil => exact h
  | cons frame frames ih => exact ih (parseEthFrame_alike h frame)

theorem receiveLoop_polling_alike {a b : Client} (h : a.Alike b) (frames : List Frame) :
    (receiveLoop { a with polling := true } frames).Alike (receiveLoop b frames) := by
  have hflag : Client.Alike { a with polling := true } b := ⟨h.info, h.mac, h.xid⟩
  exact receiveLoop_alike hflag frames

theorem receiveLoop_card (net : Client) (frames : List Frame) :
    (receiveLoop net frames).inited = net.inited ∧ (receiveLoop net frames).ready = net.ready ∧
      (receiveLoop net frames).mac = net.mac ∧ (receiveLoop net frames).xid = net.xid := by
  induction frames generalizing net with
  | nil => exact ⟨rfl, rfl, rfl, rfl⟩
  | cons frame frames ih =>
    obtain ⟨h1, h2, h3, h4⟩ := ih (parseEthFrame net frame.data frame.len)
    obtain ⟨k1, k2, k3, k4⟩ := (parseEthFrame_effect net frame).card
    exact ⟨h1.trans k1, h2.trans k2, h3.trans k3, h4.trans k4⟩

structure Client.Idle (net : Client) : Prop where
  inited : net.inited = true
  ready : net.ready = true
  polling : net.polling = false

theorem netPoll_spec {net : Client} (h : net.Idle) (frames : List Frame) :
    (netPoll net frames).Idle ∧ (netPoll net frames).Alike (receiveLoop net frames) := by
  have hcard := receiveLoop_card { net with polling := true } frames
  have halike := receiveLoop_polling_alike (.refl net) frames
  unfold netPoll
  rw [if_neg (by simp [h.inited, h.ready]), if_neg (by simp [h.polling])]
  dsimp only
  generalize receiveLoop { net with polling := true } frames = after at hcard halike ⊢
  have hidle : Client.Idle { after with polling := false } :=
    ⟨hcard.1.trans h.inited, hcard.2.1.trans h.ready, rfl⟩
  split_ifs
  · exact ⟨⟨hidle.inited, hidle.ready, rfl⟩, ⟨halike.info, halike.mac, halike.xid⟩⟩
  · exact ⟨hidle, ⟨halike.info, halike.mac, halike.xid⟩⟩
  · exact ⟨hidle, ⟨halike.info, halike.mac, halike.xid⟩⟩

theorem netPolls_spec {net : Client} (h : net.Idle) (polls : List (List Frame)) :
    (netPolls net polls).Idle ∧ (netPolls net polls).Alike (receiveLoop net polls.flatten) := by
  induction polls generalizing net with
  | nil => exact ⟨h, .refl net⟩
  | cons frames polls ih =>
    obtain ⟨hidle, halike⟩ := netPoll_spec h frames
    obtain ⟨hidle', halike'⟩ := ih hidle
    refine ⟨hidle', halike'.trans ?_⟩
    rw [flatten_cons, receiveLoop_append]
    exact receiveLoop_alike halike polls.flatten

theorem started_idle (mac : Fin 6 → UInt8) (deviceAddr : ℕ) :
    (Client.started mac deviceAddr).Idle := ⟨rfl, rfl, rfl⟩

/-- The states a run of polls passes through, each with the frames received so far. -/
inductive Moment (start : Client) (polls : List (List Frame)) : List Frame → Client → Prop
  | between (done later : List (List Frame)) (h : polls = done ++ later) :
      Moment start polls done.flatten (netPolls start done)
  | inside (done : List (List Frame)) (frames rest : List Frame) (later : List (List Frame))
      (h : polls = done ++ (frames ++ rest) :: later) :
      Moment start polls (done.flatten ++ frames)
        (receiveLoop { netPolls start done with polling := true } frames)

section Run
variable {start net : Client} {polls : List (List Frame)} {received : List Frame}

theorem Moment.alike (h : Moment start polls received net) (hidle : start.Idle) :
    net.Alike (receiveLoop start received) := by
  cases h with
  | between done later _ => exact (netPolls_spec hidle done).2
  | inside done frames rest later _ =>
    rw [receiveLoop_append]
    exact receiveLoop_polling_alike (netPolls_spec hidle done).2 frames

theorem Moment.received_prefix (h : Moment start polls received net) :
    ∃ rest, polls.flatten = received ++ rest := by
  cases h with
  | between done later h => exact ⟨later.flatten, by rw [h, flatten_append]⟩
  | inside done frames rest later h => exact ⟨rest ++ later.flatten, by simp [h]⟩

theorem exists_moment (start : Client) {rest : List Frame} (h : polls.flatten = received ++ rest) :
    ∃ net, Moment start polls received net := by
  obtain ⟨done, later, hp, rfl, -⟩ | ⟨done, frames, c, cs, later, hp, rfl, -⟩ :=
    flatten_eq_append_iff.mp h
  · exact ⟨_, .between done later hp⟩
  · exact ⟨_, .inside done frames (c :: cs) later hp⟩

end Run

/-! ### The lease -/

theorem lastAck_concat (mac : Fin 6 → UInt8) (xid : UInt32) (frames : List Frame) (frame : Frame) :
    lastAck mac xid (frames ++ [frame]) =
      (frame.ackAddress mac xid).or (lastAck mac xid frames) := by
  unfold lastAck
  cases h : frame.ackAddress mac xid with
  | none => simp [h]
  | some addr => simp [h]

def NoLateOffer (mac : Fin 6 → UInt8) (xid : UInt32) (frames : List Frame) : Prop :=
  ∀ before frame after, frames = before ++ frame :: after → lastAck mac xid before ≠ none →
    frame.isOffer mac xid = false

theorem NoLateOffer.initial {mac : Fin 6 → UInt8} {xid : UInt32} {frames rest : List Frame}
    (h : NoLateOffer mac xid (frames ++ rest)) : NoLateOffer mac xid frames := by
  intro before frame after heq
  exact h before frame (after ++ rest) (by rw [heq, append_assoc, cons_append])

theorem receiveLoop_bound (net : Client) (frames : List Frame) {addr : UInt32}
    (h : NoLateOffer net.mac net.xid frames) (ha : lastAck net.mac net.xid frames = some addr) :
    (receiveLoop net frames).info.Bound addr := by
  induction frames using reverseRecOn generalizing addr with
  | nil => cases ha
  | append_singleton frames frame ih =>
    obtain ⟨-, -, hmac, hxid⟩ := receiveLoop_card net frames
    have heffect := parseEthFrame_effect (receiveLoop net frames) frame
    rw [receiveLoop_append]
    change (parseEthFrame (receiveLoop net frames) frame.data frame.len).info.Bound addr
    rw [lastAck_concat] at ha
    generalize parseEthFrame (receiveLoop net frames) frame.data frame.len = after at heffect ⊢
    cases heffect with
    | offer ho hn _ =>
      -- an offer without an earlier ACK leaves no ACK at all
      rw [hmac, hxid] at ho hn
      rw [hn, none_or] at ha
      have hlate := h frames frame [] rfl (by simp [ha])
      rw [ho] at hlate
      cases hlate
    | ack _ hs hb =>
      rw [hmac, hxid] at hs
      rw [hs, some_or, some.injEq] at ha
      exact ha ▸ hb
    | other _ hn =>
      rw [hmac, hxid] at hn
      rw [hn, none_or] at ha
      exact ih h.initial ha

/-- Along a run of polls, once an ACK is accepted: the client is bound to the address of the ACK
accepted last, and a frame that is no accepted ACK changes nothing of the lease. -/
structure LeaseKept (start : Client) (polls : List (List Frame)) : Prop where
  bound : ∀ received net addr, Moment start polls received net →
    lastAck start.mac start.xid received = some addr → net.info.Bound addr
  others : ∀ received frame net net', Moment start polls received net →
    Moment start polls (received ++ [frame]) net' → lastAck start.mac start.xid received ≠ none →
    frame.ackAddress start.mac start.xid = none → net'.info = net.info

theorem leaseKept_of_noLateOffer {start : Client} {polls : List (List Frame)}
    (hidle : start.Idle) (h : NoLateOffer start.mac start.xid polls.flatten) :
    LeaseKept start polls := by
  constructor
  · intro received net addr hm ha
    obtain ⟨rest, hrest⟩ := hm.received_prefix
    rw [(hm.alike hidle).info]
    rw [hrest] at h
    exact receiveLoop_bound start received h.initial ha
  · intro received frame net net' hm hm' ha hn
    obtain ⟨rest, hrest⟩ := hm'.received_prefix
    obtain ⟨-, -, hmac, hxid⟩ := receiveLoop_card start received
    rw [(hm'.alike hidle).info, (hm.alike hidle).info, receiveLoop_append]
    change (parseEthFrame (receiveLoop start received) frame.data frame.len).info = _
    have heffect := parseEthFrame_effect (receiveLoop start received) frame
    generalize parseEthFrame (receiveLoop start received) frame.data frame.len = after at heffect ⊢
    cases heffect with
    | offer ho _ _ =>
      rw [hmac, hxid] at ho
      have hlate := h received frame rest (by simpa using hrest) ha
      rw [ho] at hlate
      cases hlate
    | ack _ hs _ =>
      rw [hmac, hxid, hn] at hs
      cases hs
    | other _ _ => rfl

/-- The lease is kept exactly in the runs where no OFFER is accepted after an ACK. -/
theorem lease_kept_iff_no_late_offer (mac : Fin 6 → UInt8) (deviceAddr : ℕ)
    (polls : List (List Frame)) :
    LeaseKept (.started mac deviceAddr) polls ↔
      NoLateOffer mac (Client.started mac deviceAddr).xid polls.flatten := by
  constructor
  · intro h before frame after heq ha
    by_contra ho
    rw [Bool.not_eq_false] at ho
    have hidle := started_idle mac deviceAddr
    obtain ⟨net, hm⟩ := exists_moment (.started mac deviceAddr)
      (show polls.flatten = (before ++ [frame]) ++ after by simpa using heq)
    obtain ⟨-, -, hmac, hxid⟩ := receiveLoop_card (.started mac deviceAddr) before
    have heffect := parseEthFrame_effect (receiveLoop (.started mac deviceAddr) before) frame
    obtain ⟨hn, hs⟩ := heffect.offered (by rw [hmac, hxid]; exact ho)
    rw [hmac, hxid] at hn
    -- the offer leaves the last ACK as it was, so the client still has to be bound
    have hlast := lastAck_concat mac (Client.started mac deviceAddr).xid before frame
    rw [show frame.ackAddress mac (Client.started mac deviceAddr).xid = none from hn,
      none_or] at hlast
    obtain ⟨addr, haddr⟩ := ne_none_iff_exists'.mp ha
    have hbound := h.bound _ net addr hm (hlast.trans haddr)
    have hinfo := (hm.alike hidle).info
    rw [receiveLoop_append] at hinfo
    have hstate : net.info.dhcpState = dhcpOffer := hinfo ▸ hs
    rw [hbound.state] at hstate
    exact absurd hstate (by decide)
  · exact leaseKept_of_noLateOffer (started_idle mac deviceAddr)

/-- A broadcast reply for transaction `0x12345678` with the given type, for `10.0.2.host`. -/
def serverFrame (messageType host : UInt8) : Frame where
  len := 590
  data := fun i =>
    if i < 6 then 0xff
    else ((([(12, 0x08), (14, 0x45), (23, 17), (37, 68), (42, 2), (46, 0x78), (47, 0x56),
      (48, 0x34), (49, 0x12), (58, 10), (60, 2), (61, host), (278, 53), (279, 1),
      (280, messageType), (281, 255)] : List (ℕ × UInt8)).lookup i).getD 0)

/-- An OFFER behind the ACK in one poll: the client takes the offered address and is in the
offer state, and it sends no request because it counts as configured. -/
theorem offer_after_ack_replaces_lease :
    let frames := [serverFrame dhcpAck 15, serverFrame dhcpOffer 16]
    let net := netPolls (.started (fun _ => 0) 0) [frames]
    (serverFrame dhcpAck 15).ackAddress (fun _ => 0) 0x12345678 = some 0x0f02000a ∧
      (serverFrame dhcpOffer 16).ackAddress (fun _ => 0) 0x12345678 = none ∧
      net.info.ip = 0x1002000a ∧ net.info.dhcpState = dhcpOffer ∧ net.info.discovered = true ∧
      net.sent = [.discover] := by
  decide +kernel

end Net
