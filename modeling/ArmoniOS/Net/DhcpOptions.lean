import Mathlib

/-! The DHCP option parser: the fields the client takes from the options area of a reply. -/
namespace Net

abbrev Bytes : Type := ℕ → UInt8

/-- The pointer `k` bytes further on. -/
def Bytes.advance (data : Bytes) (k : ℕ) : Bytes := fun i => data (k + i)

def dhcpOptionsLen : ℕ := 312

def optionPad : UInt8 := 0
def optionSubnet : UInt8 := 1
def optionRouter : UInt8 := 3
def optionDns : UInt8 := 6
def optionMsgType : UInt8 := 53
def optionServerId : UInt8 := 54
def optionEnd : UInt8 := 255

def hasSubnet : UInt8 := 1
def hasGateway : UInt8 := 2
def hasDns : UInt8 := 4
def hasServerId : UInt8 := 8

structure DhcpOptions where
  messageType : UInt8
  flags : UInt8
  subnet : UInt32
  gateway : UInt32
  dns : UInt32
  serverId : UInt32
  deriving DecidableEq, Repr

def dhcpHasMagicCookie (options : Bytes) (len : ℕ) : Bool :=
  decide (4 ≤ len) && options 0 == 0x63 && options 1 == 0x82 && options 2 == 0x53 &&
    options 3 == 0x63

def dhcpGetIpv4 (addr : Bytes) : UInt32 :=
  (addr 0).toUInt32 ||| (addr 1).toUInt32 <<< 8 ||| (addr 2).toUInt32 <<< 16 |||
    (addr 3).toUInt32 <<< 24

def dhcpOptionsClear : DhcpOptions := ⟨0, 0, 0, 0, 0, 0⟩

def DhcpOptions.take (out : DhcpOptions) (code optLen : UInt8) (value : Bytes) : DhcpOptions :=
  if code = optionMsgType ∧ 1 ≤ optLen then { out with messageType := value 0 }
  else if code = optionSubnet ∧ 4 ≤ optLen then
    { out with subnet := dhcpGetIpv4 value, flags := out.flags ||| hasSubnet }
  else if code = optionRouter ∧ 4 ≤ optLen then
    { out with gateway := dhcpGetIpv4 value, flags := out.flags ||| hasGateway }
  else if code = optionDns ∧ 4 ≤ optLen then
    { out with dns := dhcpGetIpv4 value, flags := out.flags ||| hasDns }
  else if code = optionServerId ∧ 4 ≤ optLen then
    { out with serverId := dhcpGetIpv4 value, flags := out.flags ||| hasServerId }
  else out

/-- The `while (pos < len)` loop; `none` is the `-1` of a truncated option. Every round moves
`pos`, so `len - pos` rounds are enough (`optionsLoop_fuel`). -/
def optionsLoop (options : Bytes) (len : ℕ) : ℕ → ℕ → DhcpOptions → Option DhcpOptions
  | 0, _, out => some out
  | fuel + 1, pos, out =>
    if pos < len then
      if options pos = optionEnd then some out
      else if options pos = optionPad then optionsLoop options len fuel (pos + 1) out
      else if len ≤ pos + 1 then none
      else if len - (pos + 2) < (options (pos + 1)).toNat then none
      else
        optionsLoop options len fuel (pos + 2 + (options (pos + 1)).toNat)
          (out.take (options pos) (options (pos + 1)) (options.advance (pos + 2)))
    else some out

def dhcpOptionsParse (options : Bytes) (len : ℕ) : Option DhcpOptions :=
  optionsLoop options len len (if dhcpHasMagicCookie options len then 4 else 0) dhcpOptionsClear

end Net
