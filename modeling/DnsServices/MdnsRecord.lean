import Mathlib.Data.List.Sort

namespace DnsServices.MdnsPublisher

/-!
# Records of the mDNS publisher

Addresses, resource records and the hostname zone of `mdns-publisher`.  An
address is a byte slice, as `net.IP` is, and the nil slice is the empty list.
-/

section Addresses

/-- A `net.IP`: four or sixteen bytes, or anything else that is no address. -/
abbrev IP := List UInt8

/-- The first twelve bytes of an IPv4 address written in sixteen. -/
def v4InV6Head : List UInt8 :=
  [0, 0, 0, 0, 0, 0, 0, 0, 0, 0, 0xff, 0xff]

/-- The address `::1`. -/
def ipv6Loopback : IP :=
  [0, 0, 0, 0, 0, 0, 0, 0, 0, 0, 0, 0, 0, 0, 0, 1]

namespace IP

/-- The four bytes of an IPv4 address, or nothing. -/
def to4 (ip : IP) : IP :=
  if ip.length = 4 then
    ip
  else if ip.length = 16 ∧ ip.take 12 = v4InV6Head then
    ip.drop 12
  else
    []

/-- The sixteen bytes of an address, or nothing. -/
def to16 (ip : IP) : IP :=
  if ip.length = 4 then
    v4InV6Head ++ ip
  else if ip.length = 16 then
    ip
  else
    []

/-- An IPv4 address and the same address in IPv6 form are equal. -/
def equal (ip x : IP) : Bool :=
  if ip.length = x.length then
    ip == x
  else if ip.length = 4 ∧ x.length = 16 then
    x.take 12 == v4InV6Head && ip == x.drop 12
  else if ip.length = 16 ∧ x.length = 4 then
    ip.take 12 == v4InV6Head && ip.drop 12 == x
  else
    false

/-- 169.254.0.0/16 or fe80::/10. -/
def isLinkLocalUnicast (ip : IP) : Bool :=
  if ip.to4 ≠ [] then
    ip.to4[0]? == some 169 && ip.to4[1]? == some 254
  else
    decide (ip.length = 16) && ip[0]? == some 0xfe &&
      ip[1]?.map (· &&& 0xc0) == some 0x80

/-- 127.0.0.0/8 or `::1`. -/
def isLoopback (ip : IP) : Bool :=
  if ip.to4 ≠ [] then
    ip.to4[0]? == some 127
  else
    ip.equal ipv6Loopback

end IP

end Addresses

section Records

/-- The type of IPv4 address records. -/
def typeA : UInt16 := 1

/-- The type of IPv6 address records. -/
def typeAAAA : UInt16 := 28

/-- The type of records that list types. -/
def typeNSEC : UInt16 := 47

/-- The type of a question for all types. -/
def typeANY : UInt16 := 255

/-- The class of the internet. -/
def classINET : UInt16 := 1

/-- RFC 6762 §10.2 cache-flush bit (top bit of rrclass). -/
def cacheFlushBit : UInt16 := 0x8000

/-- RFC 6762 §5.4 QU bit (top bit of qclass in question). -/
def quBit : UInt16 := 0x8000

/-- What all records have. -/
structure Header where
  name : String
  rrtype : UInt16
  rrclass : UInt16
  ttl : UInt32
  deriving Repr, DecidableEq

/-- A resource record; `other` is any type the publisher never looks into. -/
inductive RR where
  | a (hdr : Header) (a : IP)
  | aaaa (hdr : Header) (aaaa : IP)
  | nsec (hdr : Header) (nextDomain : String) (typeBitMap : List UInt16)
  | other (hdr : Header) (rdata : List UInt8)
  deriving Repr, DecidableEq

namespace RR

/-- The header of a record. -/
def header : RR → Header
  | a hdr _ => hdr
  | aaaa hdr _ => hdr
  | nsec hdr _ _ => hdr
  | other hdr _ => hdr

/-- A copy with another TTL. -/
def withTtl (ttl : UInt32) : RR → RR
  | a hdr address => a { hdr with ttl := ttl } address
  | aaaa hdr address => aaaa { hdr with ttl := ttl } address
  | nsec hdr nextDomain typeBitMap =>
      nsec { hdr with ttl := ttl } nextDomain typeBitMap
  | other hdr rdata => other { hdr with ttl := ttl } rdata

end RR

/-- `strings.EqualFold` on names in presentation form, which are ASCII. -/
def equalFold (a b : String) : Bool :=
  a.toList.map Char.toLower == b.toList.map Char.toLower

@[simp] theorem equalFold_self (name : String) :
    equalFold name name = true := by
  simp [equalFold]

/-- Equal length, and every type of `b` occurs in `a`. -/
def nsecTypesEqual (a b : List UInt16) : Bool :=
  if a.length ≠ b.length then
    false
  else
    b.all fun t => a.contains t

/-- Records of one type are compared by their data; other types are never equal.
-/
def rrdataEqual : RR → RR → Bool
  | .a _ x, .a _ y => x.equal y
  | .aaaa _ x, .aaaa _ y => x.equal y
  | .nsec _ nextDomain types, .nsec _ nextDomain' types' =>
      equalFold nextDomain nextDomain' && nsecTypesEqual types types'
  | _, _ => false

/-- The raw rdata of a record as bytes, for RFC 6762 §8.2 tiebreaking
comparison. -/
def rrdataBytes : RR → List UInt8
  | .a _ x => x.to4
  | .aaaa _ x => x.to16
  | .nsec _ _ _ => []
  | .other _ _ => []

end Records

section Zone

/-- The records a host publishes under its name, and its negative response. -/
structure HostnameZone where
  records : List RR
  nsec : Option RR
  deriving Repr, DecidableEq

/-- Deep copies of values are the values. -/
def copyRecords (records : List RR) : List RR :=
  records

/-- As many records, and each of the first has an equal one among the second. -/
def sameRecords (a b : List RR) : Bool :=
  if a.length ≠ b.length then
    false
  else
    a.all fun ar => b.any fun br =>
      ar.header.rrtype == br.header.rrtype && rrdataEqual ar br

namespace HostnameZone

/-- Swap the advertised addresses; the old records are returned if the new
ones differ. -/
def replaceRecords
    (z : HostnameZone)
    (records : List RR)
    (nsec : Option RR) : HostnameZone × Option (List RR) :=
  if sameRecords z.records records then
    (z, none)
  else
    ({ records := copyRecords records, nsec := nsec },
      some (copyRecords z.records))

/-- Copies of the records, taken under the lock. -/
def snapshotRecords (z : HostnameZone) : List RR :=
  copyRecords z.records

end HostnameZone

/-- The restricted NSEC record of RFC 6762 §6.1, listing the types that
occur. -/
def buildNSEC
    (name : String)
    (records : List RR)
    (ttl : UInt32) : Option RR :=
  if records = [] then
    none
  else
    some (.nsec
      { name := name
        rrtype := typeNSEC
        rrclass := classINET ||| cacheFlushBit
        ttl := ttl }
      name
      ((records.map fun r => r.header.rrtype).dedup.insertionSort (· ≤ ·)))

/-- The record published for one address, unless it is skipped. -/
def recordForIP
    (name : String)
    (ttl : UInt32)
    (ip : IP) : Option RR :=
  if ip = [] ∨ ip.isLinkLocalUnicast ∨ ip.isLoopback then
    none
  else if ip.to4 ≠ [] then
    some (.a
      { name := name
        rrtype := typeA
        rrclass := classINET ||| cacheFlushBit
        ttl := ttl }
      ip.to4)
  else
    some (.aaaa
      { name := name
        rrtype := typeAAAA
        rrclass := classINET ||| cacheFlushBit
        ttl := ttl }
      ip)

/-- The records published for the addresses of an interface. -/
def recordsForIPs
    (name : String)
    (ips : List IP)
    (ttl : UInt32) : List RR :=
  ips.filterMap (recordForIP name ttl)

end Zone

end DnsServices.MdnsPublisher
