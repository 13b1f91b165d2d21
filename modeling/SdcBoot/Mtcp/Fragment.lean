/-
# Reassembly (`ip.cpp`, `processFragment`)

Fragments of a datagram are held in a slot, in the order of their offsets, until they are all
there; then they are copied to a BigPacket and freed.  A fragment that does not fit in, or that is
one too many, is freed, in most cases with all that are held.  Here it does not matter what a
packet is: `β` may be the packet itself or its address.
-/
import SdcBoot.Mtcp.Frame

namespace SdcBoot.Mtcp

variable {β : Type}

/-- A fragment in its slot. -/
structure Fragment (β : Type) where
  offset : Nat
  length : Nat
  packet : β

/-- IpFragControl_t; `fragsRcvd` is the number of the fragments. -/
structure FragControl (β : Type) where
  inUse : Bool
  lastFragRcvd : Bool
  srcAddr : Nat
  ident : Nat
  frags : List (Fragment β)

def FragControl.idle : FragControl β := ⟨false, false, 0, 0, []⟩

/-- IP_MAX_FRAGS_PER_PACKET and IP_BIGPACKET_SIZE. -/
structure FragConfig where
  maxFragsPerPacket : Nat
  bigPacketSize : Nat

/-- What a packet says about itself as a fragment. -/
structure FragInfo where
  src : Nat
  ident : Nat
  offset : Nat
  length : Nat
  last : Bool

/-- What came of a fragment: the slots, the packets that were freed, and the fragments of a datagram
that is whole. -/
structure Reassembled (β : Type) where
  fragControl : List (FragControl β)
  freed : List β
  whole : Option (List (Fragment β))

def FragControl.isFor (fc : FragControl β) (src ident : Nat) : Bool :=
  fc.inUse && fc.srcAddr == src && fc.ident == ident

def findFragControl (slots : List (FragControl β)) (src ident : Nat) : Option Nat :=
  slots.findIdx? fun fc => fc.isFor src ident

def findOpenFragControl (slots : List (FragControl β)) : Option Nat :=
  slots.findIdx? fun fc => !fc.inUse

def FragControl.packets (fc : FragControl β) : List β := fc.frags.map Fragment.packet

/-- `killFragmentControl`, on the slot; its packets are freed. -/
def FragControl.killed (fc : FragControl β) : FragControl β := { fc with inUse := false, frags := [] }

/-- The fragment reaches beyond a BigPacket; the sum is 16 bits wide. -/
def FragInfo.tooBig (i : FragInfo) (cfg : FragConfig) : Bool :=
  decide (cfg.bigPacketSize < (i.offset + i.length) % 65536)

def FragInfo.fragment (i : FragInfo) (packet : β) : Fragment β := ⟨i.offset, i.length, packet⟩

def FragControl.insertPos (fc : FragControl β) (offset : Nat) : Nat :=
  fc.frags.findIdx fun f => decide (offset ≤ f.offset)

/-- The search for a gap, from `startOffset` on. -/
def complete : Nat → List (Fragment β) → Bool
  | _, [] => true
  | startOffset, f :: rest =>
    f.offset == startOffset && complete ((startOffset + f.length) % 65536) rest

/-- The slot is given up, and `extra` with it. -/
def giveUp (slots : List (FragControl β)) (i : Nat) (fc : FragControl β) (extra : List β) :
    Reassembled β where
  fragControl := slots.set i fc.killed
  freed := extra ++ fc.packets
  whole := none

/-- A fragment for the slot `i` was put in; `big` says whether there is a BigPacket. -/
def inserted (cfg : FragConfig) (big : Bool) (slots : List (FragControl β)) (i : Nat)
    (fc : FragControl β) : Reassembled β :=
  if fc.lastFragRcvd && complete 0 fc.frags then
    { giveUp slots i fc [] with whole := if big then some fc.frags else none }
  else if fc.frags.length = cfg.maxFragsPerPacket then giveUp slots i fc []
  else ⟨slots.set i fc, [], none⟩

/-- A fragment of a datagram that is being collected in the slot `i`. -/
def addFragment (cfg : FragConfig) (big : Bool) (info : FragInfo) (packet : β)
    (slots : List (FragControl β)) (i : Nat) (fc : FragControl β) : Reassembled β :=
  if info.tooBig cfg then giveUp slots i fc [packet]
  else
    let fc1 := if info.last then { fc with lastFragRcvd := true } else fc
    let pos := fc1.insertPos info.offset
    let fc2 := { fc1 with frags := fc1.frags.insertIdx pos (info.fragment packet) }
    match fc1.frags[pos]? with
    | some f =>
      if info.offset = f.offset ∧ info.length = f.length then
        -- a duplicate
        ⟨slots.set i fc1, [packet], none⟩
      else if f.offset < (info.offset + info.length) % 65536 then giveUp slots i fc1 [packet]
      else inserted cfg big slots i fc2
    | none => inserted cfg big slots i fc2

/-- The first fragment of a datagram. -/
def startFragment (cfg : FragConfig) (info : FragInfo) (packet : β)
    (slots : List (FragControl β)) : Reassembled β :=
  match findOpenFragControl slots with
  | none => ⟨slots, [packet], none⟩
  | some i =>
    if info.tooBig cfg then ⟨slots, [packet], none⟩
    else
      ⟨slots.set i ⟨true, info.last, info.src, info.ident, [info.fragment packet]⟩, [], none⟩

def processFragment (cfg : FragConfig) (big : Bool) (info : FragInfo) (packet : β)
    (slots : List (FragControl β)) : Reassembled β :=
  match findFragControl slots info.src info.ident with
  | none => startFragment cfg info packet slots
  | some i => addFragment cfg big info packet slots i (slots.getD i .idle)

end SdcBoot.Mtcp
