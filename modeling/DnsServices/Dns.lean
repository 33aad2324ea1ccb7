import DnsServices.Bytes

namespace DnsServices.Dns

/-!
# DNS wire-format helpers

`dns.rs` and `base64url.rs`: header-only validation of client queries, SERVFAIL
synthesis, EDNS0 padding, and the unpadded base64url text of a query.  Sixteen
bit fields are big-endian numbers; sums that go back into a field are taken
modulo `2 ^ 16`.
-/

/-- Minimum DNS message size: the header. -/
def minDnsLen : Nat := 12

/-- The option code of EDNS(0) padding. -/
def edns0OptPad : Nat := 12

/-- OPT pseudo-record: root, type, class, TTL, rdlength. -/
def edns0HeaderLen : Nat := 11

/-- Why a client's query is refused. -/
inductive DnsError where
  | tooShort (length : Nat)
  | notAQuery
  | noQuestion (qdcount : Nat)
  | tooManyQuestions (qdcount : Nat)
  | malformedQuestion
  deriving Repr, DecidableEq

/-- `u16::from_be_bytes` of two bytes of a buffer. -/
def u16At (buf : Bytes) (offset : Nat) : Nat :=
  (buf.getD offset 0).toNat * 256 + (buf.getD (offset + 1) 0).toNat

/-- Minimum length, QR bit clear, exactly one question. -/
def validateQuery (buf : Bytes) : Except DnsError Unit :=
  if buf.length < minDnsLen then
    .error (.tooShort buf.length)
  else if u16At buf 2 &&& 0x8000 ≠ 0 then
    .error .notAQuery
  else
    let qdcount := u16At buf 4
    if qdcount = 0 then
      .error (.noQuestion qdcount)
    else if qdcount > 1 then
      .error (.tooManyQuestions qdcount)
    else
      .ok ()

/-- The label loop of `question_end`; every pass moves `pos` forward. -/
def questionEndFrom (buf : Bytes) : Nat → Nat → Except DnsError Nat
  | 0, _ =>
      .error .malformedQuestion
  | fuel + 1, pos =>
      match buf[pos]? with
      | none =>
          .error .malformedQuestion
      | some len =>
          if len = 0 then
            -- root label, QTYPE, QCLASS
            .ok (pos + 1 + 4)
          else if len &&& 0xC0 ≠ 0 then
            -- compression pointer or invalid label
            .error .malformedQuestion
          else
            let pos := pos + 1 + len.toNat
            if pos > buf.length then
              .error .malformedQuestion
            else
              questionEndFrom buf fuel pos

/-- Find the end offset of the question section. -/
def questionEnd (buf : Bytes) : Except DnsError Nat :=
  questionEndFrom buf (buf.length + 1) minDnsLen

/-- How much of the query a SERVFAIL echoes; `none` if not even a header. -/
def servfailEnd (query : Bytes) : Option Nat :=
  match questionEnd query with
  | .ok e =>
      if e ≤ query.length then
        some e
      else if query.length < minDnsLen then
        none
      else
        some minDnsLen
  | .error _ =>
      -- malformed question: respond with just the header
      if query.length < minDnsLen then none else some minDnsLen

/-- Build a SERVFAIL response, or `none` if the query has no header. -/
def buildServfail (query : Bytes) : Option Bytes :=
  (servfailEnd query).map fun e =>
    let out := query.take e
    -- QR=1, keep opcode/RD, RA=1, RCODE=2
    let out := out.modify 2 (· ||| 0x80)
    let out := out.modify 3 fun flags => (flags &&& 0x70) ||| 0x80 ||| 0x02
    -- ANCOUNT = NSCOUNT = ARCOUNT = 0
    out.take 6 ++ List.replicate 6 0 ++ out.drop 12

/-- Pad a query to the block size; the flag says whether it was padded. -/
def padQuery (buf : Bytes) (blockSize : Nat) : Bytes × Bool :=
  if blockSize = 0 ∨ buf.length ≥ blockSize then
    (buf, false)
  else
    let hasEdns0 :=
      buf.length ≥ edns0HeaderLen + 4 ∧
        buf.getD (buf.length - edns0HeaderLen) 0 = 0x00 ∧
        u16At buf (buf.length - edns0HeaderLen + 1) = 41
    let overhead := if hasEdns0 then 4 else 11 + 4
    let current := buf.length + overhead
    if current ≥ blockSize then
      (buf, false)
    else
      let padLen := blockSize - current
      let option :=
        toBeBytes 2 edns0OptPad ++ toBeBytes 2 padLen ++
          List.replicate padLen 0x00
      if hasEdns0 then
        let rdlenOffset := buf.length - 2
        let newRdlen := (u16At buf rdlenOffset + 4 + padLen) % 2 ^ 16
        (buf.take rdlenOffset ++ toBeBytes 2 newRdlen ++ option, true)
      else
        let newArcount := (u16At buf 10 + 1) % 2 ^ 16
        let rdlen := (4 + padLen) % 2 ^ 16
        -- root name, type OPT, payload size, extended rcode/version/flags
        (buf.take 10 ++ toBeBytes 2 newArcount ++ buf.drop 12 ++
            [0x00] ++ toBeBytes 2 41 ++ toBeBytes 2 4096 ++
            [0x00, 0x00, 0x00, 0x00] ++ toBeBytes 2 rdlen ++ option,
          true)

/-- A validated query has a header. -/
theorem length_of_validateQuery
    {query : Bytes}
    (valid : validateQuery query = .ok ()) :
    minDnsLen ≤ query.length := by
  by_contra short
  simp [validateQuery, Nat.lt_of_not_le short] at valid

/-- Every validated query can be answered with a SERVFAIL. -/
theorem buildServfail_of_validateQuery
    {query : Bytes}
    (valid : validateQuery query = .ok ()) :
    ∃ out, buildServfail query = some out := by
  have long : ¬ query.length < minDnsLen :=
    Nat.not_lt.mpr (length_of_validateQuery valid)
  have found : ∃ e, servfailEnd query = some e := by
    unfold servfailEnd
    simp only [if_neg long]
    split
    · split <;> exact ⟨_, rfl⟩
    · exact ⟨_, rfl⟩
  obtain ⟨e, echoed⟩ := found
  rw [buildServfail, echoed]
  exact ⟨_, rfl⟩

/-- The labels end behind the place where they begin. -/
theorem le_of_questionEndFrom
    {buf : Bytes}
    {fuel pos last : Nat}
    (found : questionEndFrom buf fuel pos = .ok last) :
    pos ≤ last := by
  induction fuel generalizing pos with
  | zero =>
      cases found
  | succ fuel inductionHypothesis =>
      rw [questionEndFrom] at found
      split at found
      · cases found
      · split at found
        · obtain rfl := Except.ok.inj found
          omega
        · split at found
          · cases found
          · simp only at found
            split at found
            · cases found
            · have := inductionHypothesis found
              omega

/-- A SERVFAIL echoes at least the header, which the query has. -/
theorem le_of_servfailEnd
    {query : Bytes}
    {last : Nat}
    (found : servfailEnd query = some last) :
    minDnsLen ≤ last ∧ minDnsLen ≤ query.length := by
  unfold servfailEnd at found
  split at found
  next e ended =>
    have := le_of_questionEndFrom ended
    split at found
    · obtain rfl := Option.some.inj found
      omega
    · split at found
      · cases found
      · obtain rfl := Option.some.inj found
        omega
  · split at found
    · cases found
    · obtain rfl := Option.some.inj found
      omega

/-- A SERVFAIL begins with the transaction id of the query. -/
theorem take_two_of_buildServfail
    {query payload : Bytes}
    (built : buildServfail query = some payload) :
    2 ≤ payload.length ∧ payload.take 2 = query.take 2 := by
  obtain ⟨last, found, rfl⟩ := Option.map_eq_some_iff.mp built
  obtain ⟨header, long⟩ := le_of_servfailEnd found
  rw [minDnsLen] at header long
  obtain ⟨n, rfl⟩ : ∃ n, last = n + 4 := ⟨last - 4, by omega⟩
  obtain _ | ⟨a, _ | ⟨b, _ | ⟨c, _ | ⟨d, rest⟩⟩⟩⟩ := query
  case cons.cons.cons.cons =>
    simp
  all_goals
    simp at long

/-! ## Base64url -/

/-- The alphabet of RFC 4648 section 5. -/
def base64urlAlphabet : Bytes :=
  asBytes "ABCDEFGHIJKLMNOPQRSTUVWXYZabcdefghijklmnopqrstuvwxyz0123456789-_"

/-- The character for six bits of a 24-bit group. -/
def base64urlDigit (group shift : Nat) : UInt8 :=
  base64urlAlphabet.getD ((group >>> shift) &&& 63) 0

/-- Encode without padding. -/
def base64urlEncode : Bytes → Bytes
  | a :: b :: c :: rest =>
      let group := a.toNat <<< 16 ||| b.toNat <<< 8 ||| c.toNat
      base64urlDigit group 18 :: base64urlDigit group 12 ::
        base64urlDigit group 6 :: base64urlDigit group 0 ::
          base64urlEncode rest
  | [a, b] =>
      let group := a.toNat <<< 16 ||| b.toNat <<< 8
      [base64urlDigit group 18, base64urlDigit group 12,
        base64urlDigit group 6]
  | [a] =>
      let group := a.toNat <<< 16
      [base64urlDigit group 18, base64urlDigit group 12]
  | [] =>
      []

end DnsServices.Dns
