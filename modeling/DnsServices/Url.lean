import Mathlib.Algebra.Ring.Nat
import DnsServices.Text

namespace DnsServices.Url

open Text

/-!
# Upstream URLs

`HttpsUrl::parse` of `url.rs`.  The authority ends at the first `/` of the URL
and nowhere else, so a query that follows the host without a path is taken for
a part of the authority.
-/

/-- What is kept of a URL. -/
@[ext] structure HttpsUrl where
  /-- Hostname without brackets. -/
  host : Str
  port : UInt16
  /-- Path including optional query string. -/
  path : Str
  /-- Value for the `:authority` pseudo-header. -/
  authority : Str
  deriving Repr, DecidableEq

/-- Why a URL is refused. -/
inductive UrlError where
  | notHttps
  | noHost
  | badPort
  | unsupported
  deriving Repr, DecidableEq

/-- `parse::<u16>` -/
def parsePort (s : Str) : Except UrlError UInt16 :=
  match fromStrRadix 10 (2 ^ 16) s with
  | none =>
      .error .badPort
  | some port =>
      .ok (UInt16.ofNat port)

/-- Host and port of an authority. -/
def splitAuthority (authority : Str) : Except UrlError (Str × UInt16) :=
  match stripPrefix ['['] authority with
  | some a =>
      -- IPv6 literal: `[::1]` or `[::1]:8443`
      match cutAt ']' a with
      | none =>
          .error .noHost
      | some (h, closed) =>
          let tail := closed.drop 1
          match stripPrefix [':'] tail with
          | some ps => do
              let p ← parsePort ps
              .ok (h, p)
          | none =>
              if tail.isEmpty then .ok (h, 443) else .error .badPort
  | none =>
      match rsplitOnce ':' authority with
      | some (h, ps) => do
          let p ← parsePort ps
          .ok (h, p)
      | none =>
          .ok (authority, 443)

/-- The authority with an IPv6 literal in brackets and only a port that counts. -/
def authorityOut (host : Str) (port : UInt16) : Str :=
  let digits := Nat.toDigits 10 port.toNat
  if ':' ∈ host then
    if port = 443 then
      ['['] ++ host ++ [']']
    else
      ['['] ++ host ++ [']', ':'] ++ digits
  else if port = 443 then
    host
  else
    host ++ [':'] ++ digits

/-- The only scheme. -/
def scheme : Str := "https://".toList

/-- `HttpsUrl::parse` behind the scheme. -/
def parseRest (rest : Str) : Except UrlError HttpsUrl :=
  if '@' ∈ rest ∨ '#' ∈ rest then
    .error .unsupported
  else
    let (authority, path) := (cutAt '/' rest).getD (rest, ['/'])
    if authority.isEmpty then
      .error .noHost
    else do
      let (host, port) ← splitAuthority authority
      if host.isEmpty then
        .error .noHost
      else
        .ok
          { host := host
            port := port
            path := path
            authority := authorityOut host port }

/-- `HttpsUrl::parse` -/
def parse (s : Str) : Except UrlError HttpsUrl :=
  match stripPrefix scheme s with
  | none =>
      .error .notHttps
  | some rest =>
      parseRest rest

theorem parse_scheme_append (rest : Str) :
    parse (scheme ++ rest) = parseRest rest := by
  rw [parse, stripPrefix_append]

/-! ## URLs by the grammar -/

/--
A URL taken apart: a name or a bracketed literal, a port with any leading
zeros, and what follows the authority.
-/
structure UrlText where
  host : Str
  bracketed : Bool
  port : Option (Nat × UInt16)
  tail : Str
  host_nonempty : host ≠ []
  host_plain : ∀ c ∈ host, c ∉ "/?#@[]".toList
  name_plain : bracketed = false → ':' ∉ host
  tail_plain : '@' ∉ tail ∧ '#' ∉ tail
  tail_start : tail.head? ∈ [none, some '/', some '?']

namespace UrlText

/-- The host as it is written, with brackets around an IPv6 address. -/
def hostText (url : UrlText) : Str :=
  if url.bracketed then ['['] ++ url.host ++ [']'] else url.host

/-- The port as it is written, with any zeros in front. -/
def portText (url : UrlText) : Str :=
  match url.port with
  | none =>
      []
  | some (zeros, port) =>
      ':' :: numeral 10 zeros port.toNat

/-- The URL as it is written. -/
def text (url : UrlText) : Str :=
  scheme ++ (url.hostText ++ url.portText ++ url.tail)

/-- The port that is meant. -/
def portNumber (url : UrlText) : UInt16 :=
  (url.port.map Prod.snd).getD 443

/-- What the grammar says the URL means. -/
def value (url : UrlText) : HttpsUrl where
  host := url.host
  port := url.portNumber
  path := if url.tail.head? = some '/' then url.tail else '/' :: url.tail
  authority :=
    (if ':' ∈ url.host then ['['] ++ url.host ++ [']'] else url.host) ++
      if url.portNumber = 443 then
        []
      else
        ':' :: Nat.toDigits 10 url.portNumber.toNat

/-- A port in decimal reads back, leading zeros or not. -/
theorem parsePort_numeral (zeros : Nat) (port : UInt16) :
    parsePort (numeral 10 zeros port.toNat) = .ok port := by
  have read :
      fromStrRadix 10 (2 ^ 16) (numeral 10 zeros port.toNat) =
        some port.toNat :=
    fromStrRadix_numeral (by omega) (by omega) port.toNat_lt zeros
  rw [parsePort, read]
  simp

theorem portText_of_none
    {url : UrlText}
    (given : url.port = none) :
    url.portText = [] ∧ url.portNumber = 443 := by
  simp [portText, portNumber, given]

theorem portText_of_some
    {url : UrlText}
    {zeros : Nat}
    {port : UInt16}
    (given : url.port = some (zeros, port)) :
    url.portText = ':' :: numeral 10 zeros port.toNat ∧
      url.portNumber = port := by
  simp [portText, portNumber, given]

/-- A bracketed literal ends at its bracket, whatever colons it has. -/
theorem splitAuthority_literal
    {url : UrlText}
    (literal : url.bracketed = true) :
    splitAuthority (url.hostText ++ url.portText) =
      .ok (url.host, url.portNumber) := by
  have noClose : ']' ∉ url.host := fun member =>
    url.host_plain ']' member (by decide)
  have written :
      url.hostText ++ url.portText =
        ['['] ++ (url.host ++ ']' :: url.portText) := by
    simp [hostText, literal]
  rw [written, splitAuthority, stripPrefix_append]
  simp only [cutAt_append noClose, List.drop_succ_cons, List.drop_zero]
  cases given : url.port with
  | none =>
      have port := portText_of_none given
      have nothing : stripPrefix [':'] [] = none := rfl
      simp only [port.1, port.2, nothing]
      rfl
  | some written =>
      have port := portText_of_some given
      have digits :
          stripPrefix [':'] (':' :: numeral 10 written.1 written.2.toNat) =
            some (numeral 10 written.1 written.2.toNat) :=
        stripPrefix_append [':'] _
      simp only [port.1, port.2, digits, parsePort_numeral]
      rfl

/-- A name has no colon, so the only one stands in front of the port. -/
theorem splitAuthority_name
    {url : UrlText}
    (name : url.bracketed = false) :
    splitAuthority (url.hostText ++ url.portText) =
      .ok (url.host, url.portNumber) := by
  have noColon := url.name_plain name
  have noBracket : (url.host ++ url.portText).head? ≠ some '[' := by
    intro first
    rw [List.head?_append_of_ne_nil _ url.host_nonempty] at first
    exact url.host_plain '[' (List.mem_of_head? first) (by decide)
  have written : url.hostText = url.host := by
    simp [hostText, name]
  rw [written, splitAuthority, stripPrefix_eq_none noBracket]
  cases given : url.port with
  | none =>
      have port := portText_of_none given
      simp only [port.1, port.2, List.append_nil, rsplitOnce_eq_none noColon]
  | some written =>
      have port := portText_of_some given
      have noDigit : ':' ∉ numeral 10 written.1 written.2.toNat :=
        not_mem_numeral (by omega) (by omega) (by decide) _ _
      simp only [port.1, port.2, rsplitOnce_append url.host noDigit,
        parsePort_numeral]
      rfl

/-- Host and port are found in their text. -/
theorem splitAuthority_text (url : UrlText) :
    splitAuthority (url.hostText ++ url.portText) =
      .ok (url.host, url.portNumber) := by
  cases shape : url.bracketed with
  | true =>
      exact splitAuthority_literal shape
  | false =>
      exact splitAuthority_name shape

theorem hostText_ne_nil (url : UrlText) :
    url.hostText ≠ [] := by
  rw [hostText]
  split
  · simp
  · exact url.host_nonempty

/-- The two ways the code and the grammar put an authority together agree. -/
theorem authorityOut_eq (url : UrlText) :
    authorityOut url.host url.portNumber = url.value.authority := by
  simp only [authorityOut, value]
  split
  · split
    · simp
    · simp
  · split
    · simp
    · simp

/-- The characters that end an authority or are not supported. -/
theorem not_mem_authority
    (url : UrlText)
    {c : Char}
    (delimiter : c ∈ "/?#@".toList) :
    c ∉ url.hostText ++ url.portText := by
  have cases : c = '/' ∨ c = '?' ∨ c = '#' ∨ c = '@' := by
    simpa using delimiter
  have special : c ∈ "/?#@[]".toList := by
    rcases cases with rfl | rfl | rfl | rfl <;> decide
  have foreign : c ≠ '[' ∧ c ≠ ']' ∧ c ≠ ':' ∧ toDigit 10 c = none := by
    rcases cases with rfl | rfl | rfl | rfl <;> decide
  have notHost : c ∉ url.host := fun member =>
    url.host_plain c member special
  have notDigit (zeros value : Nat) : c ∉ numeral 10 zeros value :=
    not_mem_numeral (by omega) (by omega) foreign.2.2.2 zeros value
  rw [List.mem_append, not_or]
  constructor
  · rw [hostText]
    split
    · simp [notHost, foreign.1, foreign.2.1]
    · exact notHost
  · rw [portText]
    split
    · simp
    · simp [foreign.2.2.1, notDigit]

/-- Nothing in front of the tail makes the parser refuse the URL. -/
theorem supported (url : UrlText) :
    ¬ ('@' ∈ url.hostText ++ url.portText ++ url.tail ∨
      '#' ∈ url.hostText ++ url.portText ++ url.tail) := by
  have noAt := url.not_mem_authority (c := '@') (by decide)
  have noHash := url.not_mem_authority (c := '#') (by decide)
  rw [List.mem_append, List.mem_append (a := '#')]
  rintro ((inFront | inTail) | (inFront | inTail))
  · exact noAt inFront
  · exact url.tail_plain.1 inTail
  · exact noHash inFront
  · exact url.tail_plain.2 inTail

/-- An authority that ends where the grammar ends it is split by the grammar. -/
theorem parse_text_of_cut
    {url : UrlText}
    {path : Str}
    (cut :
      (cutAt '/' (url.hostText ++ url.portText ++ url.tail)).getD
          (url.hostText ++ url.portText ++ url.tail, ['/']) =
        (url.hostText ++ url.portText, path)) :
    parse url.text =
      .ok
        { host := url.host
          port := url.portNumber
          path := path
          authority := url.value.authority } := by
  have someAuthority : ¬ (url.hostText ++ url.portText).isEmpty = true := by
    simp [url.hostText_ne_nil]
  have someHost : ¬ url.host.isEmpty = true := by
    simp [url.host_nonempty]
  rw [text, parse_scheme_append, parseRest, if_neg url.supported, cut]
  simp only [if_neg someAuthority, splitAuthority_text, bind, Except.bind,
    if_neg someHost, authorityOut_eq]

/-- A tail that is empty or a path is where the parser ends the authority. -/
theorem parse_text
    {url : UrlText}
    (noQuery : url.tail.head? ≠ some '?') :
    parse url.text = .ok url.value := by
  have noSlash := url.not_mem_authority (c := '/') (by decide)
  have start := url.tail_start
  cases shape : url.tail with
  | nil =>
      have cut :
          (cutAt '/' (url.hostText ++ url.portText ++ url.tail)).getD
              (url.hostText ++ url.portText ++ url.tail, ['/']) =
            (url.hostText ++ url.portText, ['/']) := by
        rw [shape, List.append_nil, cutAt_eq_none noSlash, Option.getD_none]
      rw [parse_text_of_cut cut]
      simp [value, shape]
  | cons first rest =>
      have slash : first = '/' := by
        simp only [shape, List.head?_cons, List.mem_cons, Option.some.injEq,
          reduceCtorEq, false_or, List.not_mem_nil, or_false, ne_eq]
          at start noQuery
        exact start.resolve_right noQuery
      have cut :
          (cutAt '/' (url.hostText ++ url.portText ++ url.tail)).getD
              (url.hostText ++ url.portText ++ url.tail, ['/']) =
            (url.hostText ++ url.portText, url.tail) := by
        rw [shape, slash, cutAt_append noSlash, Option.getD_some]
      rw [parse_text_of_cut cut]
      simp [value, shape, slash]

/-! ## Writing the parsed URL again -/

theorem head?_path (url : UrlText) :
    url.value.path.head? = some '/' := by
  simp only [value]
  split
  next slash =>
    exact slash
  · rfl

/-- The URL made of the authority and the path of a parsed one. -/
def canonical (url : UrlText) : UrlText where
  host := url.host
  bracketed := decide (':' ∈ url.host)
  port := if url.portNumber = 443 then none else some (0, url.portNumber)
  tail := url.value.path
  host_nonempty := url.host_nonempty
  host_plain := url.host_plain
  name_plain := by
    intro name
    exact of_decide_eq_false name
  tail_plain := by
    have plain := url.tail_plain
    simp only [value]
    split
    · exact plain
    · simp [plain.1, plain.2]
  tail_start := by
    rw [url.head?_path]
    simp

theorem portNumber_canonical (url : UrlText) :
    url.canonical.portNumber = url.portNumber := by
  rw [portNumber, canonical]
  split
  next standard =>
    exact standard.symm
  · rfl

theorem text_canonical (url : UrlText) :
    url.canonical.text = scheme ++ (url.value.authority ++ url.value.path) := by
  have host :
      url.canonical.hostText =
        if ':' ∈ url.host then ['['] ++ url.host ++ [']'] else url.host := by
    simp [hostText, canonical]
  have port :
      url.canonical.portText =
        if url.portNumber = 443 then []
        else ':' :: Nat.toDigits 10 url.portNumber.toNat := by
    by_cases standard : url.portNumber = 443
    · simp [portText, canonical, standard]
    · simp [portText, canonical, standard, numeral]
  rw [text, host, port]
  rfl

/-- The canonical text names the same URL. -/
theorem value_canonical (url : UrlText) :
    url.canonical.value = url.value := by
  have path : url.canonical.value.path = url.value.path :=
    if_pos url.head?_path
  have authority : url.canonical.value.authority = url.value.authority := by
    simp only [value, portNumber_canonical]
    rfl
  have port : url.canonical.value.port = url.value.port :=
    url.portNumber_canonical
  apply HttpsUrl.ext
  · rfl
  · exact port
  · exact path
  · exact authority

/-- Printing a parsed URL and parsing it again gives the same URL. -/
theorem parse_authority_path (url : UrlText) :
    parse (scheme ++ (url.value.authority ++ url.value.path)) =
      .ok url.value := by
  have noQuery : url.canonical.tail.head? ≠ some '?' := by
    rw [show url.canonical.tail = url.value.path from rfl, url.head?_path]
    decide
  rw [← text_canonical, ← value_canonical]
  exact parse_text noQuery

/-! ## A query without a path -/

/-- The path of a parsed URL is what the first slash cuts off. -/
theorem path_of_parseRest
    {rest : Str}
    {parsed : HttpsUrl}
    (read : parseRest rest = .ok parsed) :
    parsed.path = ((cutAt '/' rest).getD (rest, ['/'])).2 := by
  rw [parseRest] at read
  split at read
  · simp at read
  · simp only at read
    split at read
    · simp at read
    · simp only [bind, Except.bind] at read
      split at read
      · simp at read
      · split at read
        · simp at read
        · simp only [Except.ok.injEq] at read
          rw [← read]

/-- A query behind the authority never ends up in the path as a whole. -/
theorem parse_text_ne_of_query
    {url : UrlText}
    (query : url.tail.head? = some '?') :
    parse url.text ≠ .ok url.value := by
  intro read
  rw [text, parse_scheme_append] at read
  have path := path_of_parseRest read
  have expected : url.value.path = '/' :: url.tail := by
    simp [value, query]
  have noSlash := url.not_mem_authority (c := '/') (by decide)
  rw [expected] at path
  by_cases slash : '/' ∈ url.tail
  · obtain ⟨front, back, shape, first⟩ := List.eq_append_cons_of_mem slash
    have absent : '/' ∉ url.hostText ++ url.portText ++ front := by
      rw [List.mem_append, not_or]
      exact ⟨noSlash, first⟩
    have cut :
        cutAt '/' (url.hostText ++ url.portText ++ url.tail) =
          some (url.hostText ++ url.portText ++ front, '/' :: back) := by
      rw [shape, ← List.append_assoc, cutAt_append absent]
    rw [cut, Option.getD_some, shape] at path
    have lengths := congrArg List.length path
    simp only [List.length_cons, List.length_append] at lengths
    omega
  · have absent : '/' ∉ url.hostText ++ url.portText ++ url.tail := by
      rw [List.mem_append, not_or]
      exact ⟨noSlash, slash⟩
    rw [cutAt_eq_none absent, Option.getD_none] at path
    simp only [List.cons.injEq, true_and] at path
    rw [path] at query
    simp at query

end UrlText

/--
A URL is split as the grammar says, and its authority and path are parsed to
the same value again, exactly if no query follows the authority directly.
-/
theorem parse_by_grammar_iff (url : UrlText) :
    (parse url.text = .ok url.value ∧
      parse (scheme ++ (url.value.authority ++ url.value.path)) =
        .ok url.value) ↔
      url.tail.head? ≠ some '?' := by
  constructor
  · rintro ⟨read, -⟩ query
    exact UrlText.parse_text_ne_of_query query read
  · intro noQuery
    exact ⟨UrlText.parse_text noQuery, url.parse_authority_path⟩

example :
    parse "https://[::1]:8443/dns-query".toList =
      .ok
        { host := "::1".toList
          port := 8443
          path := "/dns-query".toList
          authority := "[::1]:8443".toList } := by
  decide +kernel

/-- `https://dns.example?x=1` -/
def queryUrl : UrlText where
  host := "dns.example".toList
  bracketed := false
  port := none
  tail := "?x=1".toList
  host_nonempty := by decide
  host_plain := by
    have all :
        "dns.example".toList.all fun c => decide (c ∉ "/?#@[]".toList) := by
      decide +kernel
    intro c member
    exact of_decide_eq_true (List.all_eq_true.mp all c member)
  name_plain := by decide
  tail_plain := by decide
  tail_start := by decide

/-- The query becomes a part of the host name. -/
theorem query_in_host :
    parse queryUrl.text =
        .ok
          { host := "dns.example?x=1".toList
            port := 443
            path := ['/']
            authority := "dns.example?x=1".toList } ∧
      ¬ ∀ url : UrlText,
        parse url.text = .ok url.value ∧
          parse (scheme ++ (url.value.authority ++ url.value.path)) =
            .ok url.value := by
  constructor
  · decide +kernel
  · intro always
    exact absurd (always queryUrl).1 (by decide +kernel)

end DnsServices.Url
