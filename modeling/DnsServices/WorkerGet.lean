import DnsServices.Base64url
import DnsServices.WorkerLoss

namespace DnsServices.Microdoh3

/-!
# GET requests carry the query without its id

What a peer reads from the bytes that a short query is sent as: one HEADERS
frame, and in it a path whose `dns` parameter is the base64url text of the
query with its first two bytes set to zero.
-/

open Http3

/-- The query with a zero id. -/
def withoutId (query : Bytes) : Bytes :=
  (query.set 0 0).set 1 0

/-- The path of a GET request with the given text as its `dns` parameter. -/
def getPath (path text : Bytes) : Bytes :=
  path ++ [if path.contains 0x3F then 0x26 else 0x3F] ++ asBytes "dns=" ++
    text

/-- The bytes of a GET request as a peer decodes them. -/
structure GetRequest (cfg : WorkerConfig) (query bytes : Bytes) where
  headers : Bytes
  decoder : Qpack.Decoder
  text : Bytes
  framed :
    FrameParser.feedChunks {} [bytes] =
      ([(frameHeaders, headers)], { buf := [] })
  accepted : Qpack.Decoder.new headers = .ok decoder
  fields :
    decoder.collect.map decodedField =
      (requestFields (asBytes "GET") cfg.upstream.authority
        (getPath cfg.upstream.path text) cfg.token).map .ok
  inAlphabet : ∀ c ∈ text, Dns.IsBase64urlChar c
  decodes : Dns.base64urlDecode text = some (withoutId query)

section Queries

variable {cfg : WorkerConfig} {query : Bytes}

/-- A short query is sent as GET, unpadded and with a zero id. -/
theorem requestBytes_get
    (valid : Dns.validateQuery query = .ok ())
    (short : query.length ≤ getMaxDnsLen)
    (unpadded : cfg.pad = false) :
    requestBytes cfg query =
      encodeRequest (asBytes "GET") cfg.upstream.authority
        (getPath cfg.upstream.path
          (Dns.base64urlEncode (withoutId query)))
        cfg.token none := by
  have long := Dns.length_of_validateQuery valid
  rw [Dns.minDnsLen] at long
  have outbound : outboundQuery cfg query = withoutId query := by
    simp only [outboundQuery, unpadded, Bool.false_eq_true, if_false]
    rw [if_pos ⟨short, by omega⟩]
    rfl
  rw [requestBytes, if_pos short, outbound]
  rfl

/-- Without its id a query is what stands behind the first two bytes. -/
theorem withoutId_eq
    (valid : Dns.validateQuery query = .ok ()) :
    withoutId query = 0 :: 0 :: query.drop 2 := by
  have long := Dns.length_of_validateQuery valid
  rw [Dns.minDnsLen] at long
  obtain _ | ⟨first, _ | ⟨second, rest⟩⟩ := query
  · simp at long
  · simp at long
  · rfl

/-- The path of a request determines the text behind its separator. -/
theorem getPath_injective (path : Bytes) :
    Function.Injective (getPath path) := by
  intro first second same
  exact List.append_cancel_left same

/-- The fields of a request determine its path. -/
theorem path_eq_of_requestFields
    {method authority first second : Bytes}
    {token : Option Bytes}
    (same :
      requestFields method authority first token =
        requestFields method authority second token) :
    first = second := by
  have fourth := congrArg (fun fields => fields[3]?) same
  cases token with
  | none =>
      simpa [requestFields] using fourth
  | some _ =>
      simpa [requestFields] using fourth

/-- Requests with the same bytes have the same path. -/
theorem path_eq_of_encodeRequest
    {method authority first second : Bytes}
    {token : Option Bytes}
    (same :
      encodeRequest method authority first token none =
        encodeRequest method authority second token none)
    (size :
      (encodeRequest method authority first token none).length < 2 ^ 62) :
    first = second := by
  have framed :
      FrameParser.feedChunks {}
          [encodeRequest method authority first token none] = _ :=
    feedChunks_encodeRequest (by simp) size
  have otherSize := size
  rw [same] at otherSize
  have otherFramed :
      FrameParser.feedChunks {}
          [encodeRequest method authority second token none] = _ :=
    feedChunks_encodeRequest (by simp) otherSize
  rw [same, otherFramed] at framed
  simp only [Prod.mk.injEq, List.cons.injEq, and_true, true_and] at framed
  obtain ⟨decoder, accepted, collected⟩ := collect_requestFields size
  obtain ⟨otherDecoder, otherAccepted, otherCollected⟩ :=
    collect_requestFields otherSize
  rw [framed, accepted] at otherAccepted
  cases otherAccepted
  rw [collected] at otherCollected
  have okInjective :
      Function.Injective
        (Except.ok : Bytes × Bytes → Except Qpack.QpackError _) :=
    fun _ _ equal => Except.ok.inj equal
  exact path_eq_of_requestFields
    (List.map_injective_iff.mpr okInjective otherCollected)

end Queries

/--
A validated query of at most 1400 bytes is sent, without padding, as a GET
whose path carries the query with a zero id; two such queries are sent as the
same bytes exactly if they agree behind their ids.
-/
theorem getRequest_carries_query
    (cfg : WorkerConfig)
    (query : Bytes)
    (valid : Dns.validateQuery query = .ok ())
    (short : query.length ≤ getMaxDnsLen)
    (unpadded : cfg.pad = false)
    (size : (requestBytes cfg query).length < 2 ^ 62) :
    Nonempty (GetRequest cfg query (requestBytes cfg query)) ∧
      ∀ other,
        Dns.validateQuery other = .ok () →
        other.length ≤ getMaxDnsLen →
        (requestBytes cfg query = requestBytes cfg other ↔
          query.drop 2 = other.drop 2) := by
  have sent := requestBytes_get valid short unpadded
  rw [sent] at size
  constructor
  · obtain ⟨decoder, accepted, collected⟩ := collect_requestFields size
    exact
      ⟨{ headers := _
         decoder := decoder
         text := Dns.base64urlEncode (withoutId query)
         framed := by
           rw [sent]
           exact feedChunks_encodeRequest (by simp) size
         accepted := accepted
         fields := collected
         inAlphabet := fun c member => Dns.isBase64urlChar_of_mem member
         decodes := Dns.base64urlDecode_encode (withoutId query) }⟩
  · intro other otherValid otherShort
    have otherSent := requestBytes_get otherValid otherShort unpadded
    rw [sent, otherSent]
    constructor
    · intro same
      have samePath := path_eq_of_encodeRequest same size
      have sameText := getPath_injective cfg.upstream.path samePath
      have sameQuery := Dns.base64urlEncode_injective sameText
      rw [withoutId_eq valid, withoutId_eq otherValid] at sameQuery
      exact (List.cons.inj (List.cons.inj sameQuery).2).2
    · intro same
      rw [withoutId_eq valid, withoutId_eq otherValid, same]

/-- The query for the root, as a GET request. -/
theorem getRequest_carries_rootQuery :
    Nonempty
        (GetRequest Worker.plainConfig Worker.rootQuery
          (requestBytes Worker.plainConfig Worker.rootQuery)) ∧
      ∀ other,
        Dns.validateQuery other = .ok () →
        other.length ≤ getMaxDnsLen →
        (requestBytes Worker.plainConfig Worker.rootQuery =
            requestBytes Worker.plainConfig other ↔
          Worker.rootQuery.drop 2 = other.drop 2) :=
  getRequest_carries_query Worker.plainConfig Worker.rootQuery
    (by decide) (by decide) rfl (by decide +kernel)

end DnsServices.Microdoh3
