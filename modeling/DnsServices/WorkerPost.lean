import DnsServices.WorkerLoss

namespace DnsServices.Microdoh3

/-!
# POST requests carry the query but not its media type

What a peer reads from the bytes that a query too long for a GET is sent as:
one HEADERS frame and one DATA frame with the query itself.  Padding has no
part in it, since such a query is longer than a padding block, and no field
says what the body is.
-/

open Http3

/-- Among the fields there is exactly one with this name, and its value. -/
def HasField (fields : List (Bytes × Bytes)) (name value : Bytes) : Prop :=
  fields.filter (fun field => field.1 = name) = [(name, value)]

instance (fields : List (Bytes × Bytes)) (name value : Bytes) :
    Decidable (HasField fields name value) :=
  inferInstanceAs (Decidable (_ = _))

/-- The bytes of a request with a body as a peer decodes them. -/
structure DecodesTo
    (bytes : Bytes)
    (fields : List (Bytes × Bytes))
    (body : Bytes) where
  headers : Bytes
  decoder : Qpack.Decoder
  framed :
    FrameParser.feedChunks {} [bytes] =
      ([(frameHeaders, headers), (frameData, body)], { buf := [] })
  accepted : Qpack.Decoder.new headers = .ok decoder
  collected : decoder.collect.map decodedField = fields.map .ok

/-- RFC 8484 section 4.1: a POST names the media type of its body. -/
def IsDohPost (cfg : WorkerConfig) (query bytes : Bytes) : Prop :=
  ∃ fields,
    Nonempty (DecodesTo bytes fields query) ∧
      HasField fields (asBytes ":method") (asBytes "POST") ∧
      HasField fields (asBytes ":path") cfg.upstream.path ∧
      HasField fields (asBytes "content-type")
        (asBytes "application/dns-message")

/-- The bytes of a request determine its fields. -/
theorem DecodesTo.fields_eq
    {bytes body otherBody : Bytes}
    {fields otherFields : List (Bytes × Bytes)}
    (first : DecodesTo bytes fields body)
    (second : DecodesTo bytes otherFields otherBody) :
    fields = otherFields := by
  have framed := second.framed
  rw [first.framed] at framed
  simp only [Prod.mk.injEq, List.cons.injEq, true_and] at framed
  have accepted := second.accepted
  rw [← framed.1.1, first.accepted] at accepted
  have sameDecoder := Except.ok.inj accepted
  have collected := second.collected
  rw [← sameDecoder, first.collected] at collected
  exact List.map_injective_iff.mpr (fun _ _ => Except.ok.inj) collected

section LongQueries

variable {cfg : WorkerConfig} {query : Bytes}

/-- A query longer than a block is not padded. -/
theorem outboundQuery_long
    (long : getMaxDnsLen < query.length) :
    outboundQuery cfg query = query := by
  have block : 128 ≤ query.length := by
    rw [getMaxDnsLen] at long
    omega
  have unpadded : (Dns.padQuery query 128).1 = query := by
    rw [Dns.padQuery, if_pos (Or.inr block)]
  rw [outboundQuery, unpadded, ite_self]
  exact if_neg fun get => absurd get.1 (Nat.not_le.mpr long)

/-- A long query is the body of a POST to the upstream path. -/
theorem requestBytes_post
    (long : getMaxDnsLen < query.length) :
    requestBytes cfg query =
      encodeRequest (asBytes "POST") cfg.upstream.authority
        cfg.upstream.path cfg.token (some query) := by
  rw [requestBytes, if_neg (Nat.not_le.mpr long), outboundQuery_long long]

/-- What a peer decodes from the request for a long query. -/
theorem decodesTo_requestBytes
    (long : getMaxDnsLen < query.length)
    (size : (requestBytes cfg query).length < 2 ^ 62) :
    Nonempty
      (DecodesTo (requestBytes cfg query)
        (requestFields (asBytes "POST") cfg.upstream.authority
          cfg.upstream.path cfg.token)
        query) := by
  have sent : requestBytes cfg query = _ := requestBytes_post long
  rw [sent] at size
  obtain ⟨decoder, accepted, collected⟩ := collect_requestFields size
  exact
    ⟨{ headers := _
       decoder := decoder
       framed := by
         rw [sent]
         exact feedChunks_encodeRequest (by simp) size
       accepted := accepted
       collected := collected }⟩

end LongQueries

/-- Method and path of a request are among its fields once. -/
theorem hasField_requestFields
    (method authority path : Bytes)
    (token : Option Bytes) :
    HasField (requestFields method authority path token)
        (asBytes ":method") method ∧
      HasField (requestFields method authority path token)
        (asBytes ":path") path := by
  cases token with
  | none =>
      exact ⟨rfl, rfl⟩
  | some _ =>
      exact ⟨rfl, rfl⟩

/-- No request names the media type of its body. -/
theorem not_hasField_contentType
    (method authority path value : Bytes)
    (token : Option Bytes) :
    ¬ HasField (requestFields method authority path token)
        (asBytes "content-type") value := by
  have missing :
      (requestFields method authority path token).filter
          (fun field => field.1 = asBytes "content-type") =
        [] := by
    cases token with
    | none =>
        rfl
    | some _ =>
        rfl
  intro found
  rw [HasField, missing] at found
  cases found

/-- The request for a long query is no POST as the RFC has it. -/
theorem not_isDohPost
    {cfg : WorkerConfig}
    {query : Bytes}
    (long : getMaxDnsLen < query.length)
    (size : (requestBytes cfg query).length < 2 ^ 62) :
    ¬ IsDohPost cfg query (requestBytes cfg query) := by
  obtain ⟨decoded⟩ := decodesTo_requestBytes long size
  rintro ⟨fields, ⟨other⟩, -, -, contentType⟩
  rw [← decoded.fields_eq other] at contentType
  exact not_hasField_contentType _ _ _ _ _ contentType

/--
A query too long for a GET is sent as a POST to the upstream path with the
query as its body, but the request never says that the body is a DNS message.
-/
theorem requestBytes_lacks_contentType
    (cfg : WorkerConfig)
    (query : Bytes)
    (long : getMaxDnsLen < query.length)
    (size : (requestBytes cfg query).length < 2 ^ 62) :
    (∃ fields,
        Nonempty (DecodesTo (requestBytes cfg query) fields query) ∧
          HasField fields (asBytes ":method") (asBytes "POST") ∧
          HasField fields (asBytes ":path") cfg.upstream.path) ∧
      ¬ IsDohPost cfg query (requestBytes cfg query) := by
  obtain ⟨decoded⟩ := decodesTo_requestBytes long size
  exact
    ⟨⟨_, ⟨decoded⟩, hasField_requestFields _ _ _ _⟩, not_isDohPost long size⟩

/-- A query for the root name with 1400 bytes behind it. -/
def longQuery : Bytes :=
  Worker.rootQuery ++ List.replicate 1400 0

/-- A query too long for GET, as a POST request. -/
theorem requestBytes_lacks_contentType_longQuery :
    (∃ fields,
        Nonempty
            (DecodesTo (requestBytes Worker.plainConfig longQuery) fields
              longQuery) ∧
          HasField fields (asBytes ":method") (asBytes "POST") ∧
          HasField fields (asBytes ":path")
            Worker.plainConfig.upstream.path) ∧
      ¬ IsDohPost Worker.plainConfig longQuery
        (requestBytes Worker.plainConfig longQuery) :=
  requestBytes_lacks_contentType Worker.plainConfig longQuery
    (by decide +kernel) (by decide +kernel)

/-- Not every validated query of 1401 to 4096 bytes goes out as such a POST. -/
theorem not_isDohPost_longQuery :
    ¬ ∀ cfg query,
      Dns.validateQuery query = .ok () →
      getMaxDnsLen < query.length →
      query.length ≤ maxDnsLen →
      (requestBytes cfg query).length < 2 ^ 62 →
      IsDohPost cfg query (requestBytes cfg query) := by
  intro always
  have long : getMaxDnsLen < longQuery.length := by
    decide +kernel
  have size :
      (requestBytes Worker.plainConfig longQuery).length < 2 ^ 62 := by
    decide +kernel
  exact not_isDohPost long size
    (always Worker.plainConfig longQuery (by decide +kernel) long
      (by decide +kernel) size)

end DnsServices.Microdoh3
