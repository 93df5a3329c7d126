-- Bounded HTTPS reads (http.py). What httpx makes of a URL is a parameter, and
-- so is the server, which may answer every request as it likes.
import FlynnAgents.Builtins

namespace FlynnAgents

/-! ## URLs and origins -/

/-- What `httpx.URL` tells of a URL. A port of 443 is not shown. -/
structure Httpx (Url : Type) where
  /-- `httpx.URL(value)`, or nothing where it raises `InvalidURL`. -/
  parse : String → Option Url
  /-- `str(url)` -/
  text : Url → String
  join : Url → String → Except Exn Url
  scheme : Url → String
  host : Url → String
  rawHost : Url → String
  /-- The port as it is written in the URL. -/
  written : Url → Option Nat
  port : Url → Option Nat
  userinfo : Url → String
  fragment : Url → String
  path : Url → String
  query : Url → String
  port_eq : ∀ u, port u = if written u = some 443 then none else written u

def fetchRefused (message : String) : Exn :=
  ⟨"FetchRefused", [.valueError], message, none⟩

/-- `c.isspace() or ord(c) < 32 or 127 <= ord(c) <= 159` -/
def spaceOrControl (c : Char) : Bool :=
  isSpace c || decide (c.toNat < 32) || decide (127 ≤ c.toNat ∧ c.toNat ≤ 159)

variable {Url : Type} (x : Httpx Url)

/-- `_url` -/
def Httpx.url (value : String) : Except Exn Url :=
  if value = "" ∨ value.toList.any spaceOrControl then
    .error (fetchRefused "HTTPS URL must be nonempty and contain no whitespace or controls")
  else if value.toList.any (fun c => c.toNat = 92) then
    .error (fetchRefused "HTTPS URL must not contain backslashes")
  else match x.parse value with
    | none => .error (fetchRefused "Malformed HTTPS URL")
    | some parsed =>
      if x.scheme parsed ≠ "https" ∨ x.host parsed = "" ∨ x.userinfo parsed ≠ "" ∨
          x.fragment parsed ≠ "" then
        .error (fetchRefused
          "Fetch requires an absolute HTTPS URL without credentials or fragment")
      else .ok parsed

/-- `_origin`: a port of zero counts as no port. -/
def Httpx.origin (url : Url) : String × Nat :=
  (x.rawHost url, match x.port url with
    | none => 443
    | some 0 => 443
    | some n => n)

structure FetchPolicyFields where
  allowedOrigins : List String
  maxResponseBytes : Int
  /-- The seconds, or nothing if they are not finite. -/
  timeoutSeconds : Option Rat
  maxRedirects : Int := 3
  deriving DecidableEq, Repr

/-- An origin of a policy, as `__post_init__` reads it. -/
def Httpx.identity (value : String) : Except Exn (String × Nat) := do
  let parsed ← x.url value
  if x.path parsed ≠ "/" ∨ x.query parsed ≠ "" then
    .error (valueError "Fetch policy origins cannot include a path or query")
  else return x.origin parsed

/-- `FetchPolicy.__post_init__` -/
def FetchPolicyFields.postInit (f : FetchPolicyFields) : Except Exn Unit :=
  if f.allowedOrigins = [] then
    .error (valueError "Fetch policy requires an explicit nonempty tuple of HTTPS origins")
  else match f.allowedOrigins.mapM x.identity with
    | .error e => .error e
    | .ok identities =>
      if ¬ identities.Nodup then .error (valueError "Fetch policy origins must be distinct")
      else if f.maxResponseBytes ≤ 0 then
        .error (valueError "Fetch response byte cap must be a positive integer")
      else if f.maxRedirects < 0 then
        .error (valueError "Fetch redirect cap must be a nonnegative integer")
      else if f.timeoutSeconds.any (fun seconds => 0 < seconds) then .ok ()
      else .error (valueError "Fetch timeout must be positive and finite")

/-- A policy that its constructor accepted. -/
structure FetchPolicy extends FetchPolicyFields where
  accepted : toFetchPolicyFields.postInit x = .ok ()

/-- `validate_url` -/
def FetchPolicy.validateUrl {x : Httpx Url} (policy : FetchPolicy x) (value : String) :
    Except Exn Url := do
  let parsed ← x.url value
  let origins ← policy.allowedOrigins.mapM fun origin => x.origin <$> x.url origin
  if x.origin parsed ∉ origins then
    .error (fetchRefused "HTTPS request origin is outside the caller's fetch policy")
  else return parsed

/-! ## Responses -/

/-- What the next read of a body gives. A read never gives an empty chunk. -/
inductive Chunk where
  | data (bytes : List UInt8) (nonempty : bytes ≠ [])
  | finished
  | raised (error : Exn)

structure Response where
  statusCode : Nat
  headers : String → Option String
  stream : Nat → Chunk

/-- What a request gives: a response, or an error of the transport, of the
deadline or of a cancellation. -/
inductive Reply where
  | response (r : Response)
  | raised (error : Exn)

structure FetchResponse where
  requestedUrl : String
  finalUrl : String
  statusCode : Nat
  contentType : String
  body : List UInt8
  redirectUrls : List String
  deriving DecidableEq, Repr

def redirectCodes : List Nat := [301, 302, 303, 307, 308]

/-! ## The fetch -/

variable {x}

/-- The URL that a redirect response asks for. -/
def FetchPolicy.follow (policy : FetchPolicy x) (selected : Url) (redirects : List String)
    (response : Response) : Except Exn Url := do
  if policy.maxRedirects ≤ redirects.length then
    .error (fetchRefused "HTTPS response exceeded the redirect cap")
  else match response.headers "location" with
    | none => .error (fetchRefused "HTTPS redirect response has no Location")
    | some location =>
      if location = "" then .error (fetchRefused "HTTPS redirect response has no Location")
      else do
        let target ← x.join selected location
        policy.validateUrl (x.text target)

/-- The checks of a final response before its body is read. -/
def FetchPolicy.checkHeaders (policy : FetchPolicy x) (response : Response) : Except Exn Unit := do
  if lower ((response.headers "content-encoding").getD "identity") ≠ "identity" then
    .error (fetchRefused "HTTPS response compression is outside the byte-bound contract")
  else match response.headers "content-length" with
    | none => .ok ()
    | some declared =>
      if !asciiDecimal declared then
        .error (fetchRefused "HTTPS response Content-Length must be an unsigned integer")
      else do
        let bound ← intStr policy.maxResponseBytes.toNat
        if bound.length < (significant declared).length ∨
            policy.maxResponseBytes < decimal (significant declared) then
          .error (fetchRefused "HTTPS response exceeds the declared byte cap")
        else return ()

/-- `async for chunk in response.aiter_raw(chunk_size=16384)` -/
def FetchPolicy.readBody (policy : FetchPolicy x) (stream : Nat → Chunk) :
    Nat → Nat → List UInt8 → Option (Except Exn (List UInt8))
  | 0, _, _ => none
  | fuel + 1, i, body =>
    match stream i with
    | .finished => some (.ok body)
    | .raised error => some (.error error)
    | .data bytes _ =>
      if policy.maxResponseBytes < body.length + bytes.length then
        some (.error (fetchRefused "HTTPS response exceeds the streamed byte cap"))
      else policy.readBody stream fuel (i + 1) (body ++ bytes)

/-- The length check and the result. -/
def finish (requested : String) (final : String) (redirects : List String) (response : Response)
    (body : List UInt8) : Except Exn FetchResponse :=
  let result : FetchResponse :=
    ⟨requested, final, response.statusCode, (response.headers "content-type").getD "", body,
      redirects⟩
  match response.headers "content-length" with
  | none => .ok result
  | some declared =>
    if body.length ≠ decimal (significant declared) then
      .error (fetchRefused "HTTPS response length differs from Content-Length")
    else .ok result

/-- A response that is not a redirect. -/
def FetchPolicy.receive (policy : FetchPolicy x) (fuel : Nat) (requested : String) (selected : Url)
    (redirects : List String) (response : Response) : Option (Except Exn FetchResponse) :=
  match policy.checkHeaders response with
  | .error e => some (.error e)
  | .ok () =>
    (policy.readBody response.stream fuel 0 []).map fun read =>
      read >>= finish requested (x.text selected) redirects response

/-- `while True`: the requests sent, and how the fetch ends. -/
def FetchPolicy.loop (policy : FetchPolicy x) (server : List Url → Reply) (requested : String)
    (reads : Nat) : Nat → List Url → Url → List String →
      Option (List Url × Except Exn FetchResponse)
  | 0, _, _, _ => none
  | fuel + 1, sent, selected, redirects =>
    let sent := sent ++ [selected]
    match server sent with
    | .raised error => some (sent, .error error)
    | .response response =>
      if response.statusCode ∈ redirectCodes then
        match policy.follow selected redirects response with
        | .error error => some (sent, .error error)
        | .ok next => policy.loop server requested reads fuel sent next (redirects ++ [x.text next])
      else (policy.receive reads requested selected redirects response).map fun r => (sent, r)

/-- `fetch_https` -/
def FetchPolicy.fetchHttps (policy : FetchPolicy x) (server : List Url → Reply) (url : String)
    (fuel : Nat) : Option (List Url × Except Exn FetchResponse) :=
  match policy.validateUrl url with
  | .error e => some ([], .error e)
  | .ok selected => policy.loop server (x.text selected) fuel fuel [] selected []

/-! ## The body -/

def Chunk.bytes : Chunk → List UInt8
  | .data bytes _ => bytes
  | _ => []

/-- The chunks before the `n`th, joined. -/
def streamed (stream : Nat → Chunk) (n : Nat) : List UInt8 :=
  (List.range n).flatMap fun i => (stream i).bytes

/-- The stream ends after `n` chunks. -/
def EndsAfter (stream : Nat → Chunk) (n : Nat) : Prop :=
  stream n = .finished ∧ ∀ i < n, ∃ bytes h, stream i = .data bytes h

theorem streamed_succ (stream : Nat → Chunk) (n : Nat) :
    streamed stream (n + 1) = streamed stream n ++ (stream n).bytes := by
  simp [streamed, List.range_succ, List.flatMap_append]

variable {policy : FetchPolicy x} {server : List Url → Reply} {url : String}

/-- Reading stops by itself, and what it gives is the whole body within the cap. -/
theorem readBody_stops (policy : FetchPolicy x) (stream : Nat → Chunk) (room i : Nat)
    (hroom : policy.maxResponseBytes ≤ (streamed stream i).length + room)
    (hfits : (streamed stream i).length ≤ policy.maxResponseBytes)
    (hdata : ∀ j < i, ∃ bytes h, stream j = .data bytes h) :
    ∃ out, (∀ fuel, room < fuel → policy.readBody stream fuel i (streamed stream i) = some out) ∧
      ∀ body, out = .ok body → ∃ n, EndsAfter stream n ∧ body = streamed stream n ∧
        body.length ≤ policy.maxResponseBytes := by
  induction room using Nat.strong_induction_on generalizing i with
  | _ room ih =>
    have hfuel : ∀ fuel, room < fuel → fuel = (fuel - 1) + 1 := by
      intro fuel h
      omega
    cases hnext : stream i with
    | finished =>
      refine ⟨.ok (streamed stream i), ?_, ?_⟩
      · intro fuel h
        rw [hfuel fuel h, FetchPolicy.readBody, hnext]
      · intro body hbody
        cases hbody
        exact ⟨i, ⟨hnext, hdata⟩, rfl, hfits⟩
    | raised e =>
      refine ⟨.error e, ?_, ?_⟩
      · intro fuel h
        rw [hfuel fuel h, FetchPolicy.readBody, hnext]
      · intro body hbody
        cases hbody
    | data bytes hne =>
      by_cases hlong : policy.maxResponseBytes < (streamed stream i).length + bytes.length
      · refine ⟨.error (fetchRefused "HTTPS response exceeds the streamed byte cap"), ?_, ?_⟩
        · intro fuel h
          rw [hfuel fuel h, FetchPolicy.readBody, hnext]
          exact if_pos hlong
        · intro body hbody
          cases hbody
      · -- a chunk is not empty, so the room that is left shrinks
        have hpos : 0 < bytes.length := List.length_pos_iff.mpr hne
        have hstep : streamed stream (i + 1) = streamed stream i ++ bytes := by
          rw [streamed_succ, hnext]
          rfl
        have hlength : (streamed stream (i + 1)).length =
            (streamed stream i).length + bytes.length := by
          rw [hstep, List.length_append]
        have hdata' : ∀ j < i + 1, ∃ bytes h, stream j = .data bytes h := by
          intro j hj
          by_cases hji : j = i
          · subst hji
            exact ⟨bytes, hne, hnext⟩
          · exact hdata j (by omega)
        obtain ⟨out, hout, hspec⟩ := ih (room - 1) (by omega) (i + 1) (by omega) (by omega) hdata'
        refine ⟨out, ?_, hspec⟩
        intro fuel h
        rw [hfuel fuel h, FetchPolicy.readBody, hnext]
        simp only [if_neg hlong]
        rw [← hstep]
        exact hout (fuel - 1) (by omega)

/-! ## The route -/

/-- The requests of a fetch: the first URL, and after each redirect the URL that
its Location joins to. -/
inductive Route (policy : FetchPolicy x) (server : List Url → Reply) (url : String) :
    List Url → Prop where
  | start {first : Url} (accepted : policy.validateUrl url = .ok first) :
      Route policy server url [first]
  | redirect {before : List Url} {previous target next : Url} {response : Response}
      {location : String} (route : Route policy server url (before ++ [previous]))
      (answered : server (before ++ [previous]) = .response response)
      (redirects : response.statusCode ∈ redirectCodes)
      (located : response.headers "location" = some location)
      (joined : x.join previous location = .ok target)
      (accepted : policy.validateUrl (x.text target) = .ok next) :
      Route policy server url (before ++ [previous] ++ [next])

/-- Every URL on the route was accepted by the policy. -/
theorem Route.accepted {route : List Url} (h : Route policy server url route) :
    ∀ u ∈ route, ∃ value, policy.validateUrl value = .ok u := by
  induction h with
  | start accepted =>
    intro u hu
    rw [List.mem_singleton.mp hu]
    exact ⟨url, accepted⟩
  | redirect route answered redirects located joined accepted ih =>
    intro u hu
    rcases List.mem_append.mp hu with hu | hu
    · exact ih u hu
    · rw [List.mem_singleton.mp hu]
      exact ⟨_, accepted⟩

/-- What a fetch that returns has read. -/
structure Fetched (policy : FetchPolicy x) (server : List Url → Reply) (sent : List Url)
    (r : FetchResponse) : Prop where
  answer : ∃ response, server sent = .response response ∧ r.statusCode = response.statusCode ∧
    response.statusCode ∉ redirectCodes ∧
    lower ((response.headers "content-encoding").getD "identity") = "identity" ∧
    (∃ n, EndsAfter response.stream n ∧ r.body = streamed response.stream n) ∧
    ∀ declared, response.headers "content-length" = some declared →
      asciiDecimal declared = true ∧ r.body.length = decimal declared.toList
  bounded : r.body.length ≤ policy.maxResponseBytes
  requested : sent.head?.map x.text = some r.requestedUrl
  final : sent.getLast?.map x.text = some r.finalUrl
  redirects : r.redirectUrls = sent.tail.map x.text

/-- How a fetch ended: the requests are a route within the cap of redirects. -/
structure BoundedFetch (policy : FetchPolicy x) (server : List Url → Reply) (url : String)
    (result : List Url × Except Exn FetchResponse) : Prop where
  route : result.1 = [] ∨ Route policy server url result.1
  capped : result.1.length ≤ policy.maxRedirects + 1
  fetched : ∀ r, result.2 = .ok r → Fetched policy server result.1 r

theorem checkHeaders_ok {response : Response} (h : policy.checkHeaders response = .ok ()) :
    lower ((response.headers "content-encoding").getD "identity") = "identity" ∧
      ∀ declared, response.headers "content-length" = some declared →
        asciiDecimal declared = true := by
  unfold FetchPolicy.checkHeaders at h
  split at h
  · cases h
  · rename_i hencoding
    refine ⟨not_not.mp hencoding, ?_⟩
    intro declared hdeclared
    rw [hdeclared] at h
    simp only at h
    by_contra hn
    rw [if_pos (by simpa using hn)] at h
    cases h

theorem follow_ok {selected next : Url} {redirects : List String} {response : Response}
    (h : policy.follow selected redirects response = .ok next) :
    ↑redirects.length < policy.maxRedirects ∧ ∃ location target,
      response.headers "location" = some location ∧ x.join selected location = .ok target ∧
        policy.validateUrl (x.text target) = .ok next := by
  unfold FetchPolicy.follow at h
  split at h
  · cases h
  · rename_i hcap
    refine ⟨by omega, ?_⟩
    cases hlocation : response.headers "location" with
    | none =>
      rw [hlocation] at h
      cases h
    | some location =>
      rw [hlocation] at h
      simp only at h
      split at h
      · cases h
      · cases htarget : x.join selected location with
        | error e =>
          rw [htarget] at h
          cases h
        | ok target =>
          rw [htarget] at h
          exact ⟨location, target, rfl, htarget, h⟩

theorem finishFetch_ok {requested final : String} {redirects : List String} {response : Response}
    {body : List UInt8} {r : FetchResponse}
    (h : finish requested final redirects response body = .ok r) :
    r = ⟨requested, final, response.statusCode, (response.headers "content-type").getD "", body,
      redirects⟩ ∧
      ∀ declared, response.headers "content-length" = some declared →
        body.length = decimal declared.toList := by
  unfold finish at h
  cases hdeclared : response.headers "content-length" with
  | none =>
    rw [hdeclared] at h
    cases h
    exact ⟨rfl, fun declared hd => by cases hd⟩
  | some declared =>
    rw [hdeclared] at h
    simp only at h
    split at h
    · cases h
    · rename_i hlength
      cases h
      refine ⟨rfl, ?_⟩
      intro declared' hd
      cases hd
      rw [← decimal_significant]
      exact not_not.mp hlength

/-- What the constructor of a policy has checked. -/
theorem FetchPolicy.checked (policy : FetchPolicy x) :
    ∃ identities, policy.allowedOrigins.mapM x.identity = .ok identities ∧ identities.Nodup ∧
      0 < policy.maxResponseBytes ∧ 0 ≤ policy.maxRedirects := by
  have h := policy.accepted
  unfold FetchPolicyFields.postInit at h
  by_cases hnone : policy.allowedOrigins = []
  · rw [if_pos hnone] at h
    cases h
  · rw [if_neg hnone] at h
    cases hids : policy.allowedOrigins.mapM x.identity with
    | error e =>
      rw [hids] at h
      cases h
    | ok identities =>
      rw [hids] at h
      simp only at h
      split at h
      · cases h
      · split at h
        · cases h
        · split at h
          · cases h
          · exact ⟨identities, rfl, not_not.mp ‹_›, by omega, by omega⟩

/-- A final response is read, or refused, in the end. -/
theorem receive_stops (policy : FetchPolicy x) (sent : List Url) (selected : Url)
    (response : Response) (requested : String)
    (hanswer : server (sent ++ [selected]) = .response response)
    (hcode : response.statusCode ∉ redirectCodes)
    (hrequested : (sent ++ [selected]).head?.map x.text = some requested) :
    ∃ out, (∀ fuel, policy.maxResponseBytes.toNat < fuel → policy.receive fuel requested selected
        ((sent ++ [selected]).tail.map x.text) response = some out) ∧
      ∀ r, out = .ok r → Fetched policy server (sent ++ [selected]) r := by
  obtain ⟨-, -, -, hbytes, hredirects⟩ := policy.checked
  cases hcheck : policy.checkHeaders response with
  | error e =>
    refine ⟨.error e, ?_, ?_⟩
    · intro fuel _
      rw [FetchPolicy.receive, hcheck]
    · intro r hr
      cases hr
  | ok u =>
    obtain ⟨hencoding, hdecimal⟩ := checkHeaders_ok hcheck
    obtain ⟨read, hread, hbody⟩ := readBody_stops policy response.stream
      policy.maxResponseBytes.toNat 0 (by simp [streamed]) (by simp [streamed]; omega)
      (by intro j hj; omega)
    refine ⟨read >>= finish requested (x.text selected)
      ((sent ++ [selected]).tail.map x.text) response, ?_, ?_⟩
    · intro fuel hfuel
      rw [FetchPolicy.receive, hcheck]
      have hempty : streamed response.stream 0 = [] := rfl
      rw [← hempty, hread fuel hfuel]
      rfl
    · intro r hr
      cases read with
      | error e => cases hr
      | ok body =>
        obtain ⟨n, hends, hjoined, hcap⟩ := hbody body rfl
        obtain ⟨rfl, hlength⟩ := finishFetch_ok hr
        exact {
          answer := ⟨response, hanswer, rfl, hcode, hencoding, ⟨n, hends, hjoined⟩,
            fun declared hd => ⟨hdecimal declared hd, hlength declared hd⟩⟩
          bounded := hcap
          requested := hrequested
          final := by simp
          redirects := rfl }

/-- From here the fetch ends, with fuel for the redirects that are left. -/
def StopsWith (policy : FetchPolicy x) (server : List Url → Reply) (url requested : String)
    (room : Nat) (sent : List Url) (selected : Url) : Prop :=
  ∃ result, BoundedFetch policy server url result ∧ ∀ reads fuel,
    policy.maxResponseBytes.toNat < reads → room < fuel →
    policy.loop server requested reads fuel sent selected
      ((sent ++ [selected]).tail.map x.text) = some result

variable {sent : List Url} {selected : Url} {requested : String} {room : Nat}

theorem redirects_length (x : Httpx Url) (sent : List Url) (selected : Url) :
    ((sent ++ [selected]).tail.map x.text).length = sent.length := by simp

/-- A request within the cap that ends in an error. -/
theorem bounded_error (hroute : Route policy server url (sent ++ [selected]))
    (hroom : policy.maxRedirects = sent.length + room) (e : Exn) :
    BoundedFetch policy server url (sent ++ [selected], .error e) where
  route := .inr hroute
  capped := by
    simp only [List.length_append, List.length_singleton]
    omega
  fetched := by
    intro r hr
    cases hr

theorem raised_stops {e : Exn} (hroute : Route policy server url (sent ++ [selected]))
    (hroom : policy.maxRedirects = sent.length + room)
    (hserver : server (sent ++ [selected]) = .raised e) :
    StopsWith policy server url requested room sent selected := by
  refine ⟨_, bounded_error hroute hroom e, ?_⟩
  intro reads fuel _ hfuel
  obtain ⟨fuel, rfl⟩ : ∃ n, fuel = n + 1 := ⟨fuel - 1, by omega⟩
  simp only [FetchPolicy.loop, hserver]

theorem refused_stops {e : Exn} {response : Response}
    (hroute : Route policy server url (sent ++ [selected]))
    (hroom : policy.maxRedirects = sent.length + room)
    (hserver : server (sent ++ [selected]) = .response response)
    (hcode : response.statusCode ∈ redirectCodes)
    (hfollow : policy.follow selected ((sent ++ [selected]).tail.map x.text) response =
      .error e) :
    StopsWith policy server url requested room sent selected := by
  refine ⟨_, bounded_error hroute hroom e, ?_⟩
  intro reads fuel _ hfuel
  obtain ⟨fuel, rfl⟩ : ∃ n, fuel = n + 1 := ⟨fuel - 1, by omega⟩
  simp only [FetchPolicy.loop, hserver, if_pos hcode, hfollow]

theorem final_stops {response : Response}
    (hroute : Route policy server url (sent ++ [selected]))
    (hroom : policy.maxRedirects = sent.length + room)
    (hserver : server (sent ++ [selected]) = .response response)
    (hcode : response.statusCode ∉ redirectCodes)
    (hrequested : (sent ++ [selected]).head?.map x.text = some requested) :
    StopsWith policy server url requested room sent selected := by
  obtain ⟨out, hout, hfetched⟩ :=
    receive_stops policy sent selected response requested hserver hcode hrequested
  refine ⟨(sent ++ [selected], out), ⟨.inr hroute, ?_, hfetched⟩, ?_⟩
  · simp only [List.length_append, List.length_singleton]
    omega
  · intro reads fuel hreads hfuel
    obtain ⟨fuel, rfl⟩ : ∃ n, fuel = n + 1 := ⟨fuel - 1, by omega⟩
    simp only [FetchPolicy.loop, hserver, if_neg hcode, hout reads hreads, Option.map_some]

/-- From any point of a route within the cap, the fetch ends within it. -/
theorem loop_stops (policy : FetchPolicy x) (room : Nat) (sent : List Url) (selected : Url)
    (requested : String) (hroute : Route policy server url (sent ++ [selected]))
    (hroom : policy.maxRedirects = sent.length + room)
    (hrequested : (sent ++ [selected]).head?.map x.text = some requested) :
    StopsWith policy server url requested room sent selected := by
  induction room generalizing sent selected with
  | zero =>
    cases hserver : server (sent ++ [selected]) with
    | raised e => exact raised_stops hroute hroom hserver
    | response response =>
      by_cases hcode : response.statusCode ∈ redirectCodes
      · -- no redirect is left
        cases hfollow : policy.follow selected ((sent ++ [selected]).tail.map x.text) response with
        | error e => exact refused_stops hroute hroom hserver hcode hfollow
        | ok next =>
          have hcap := (follow_ok hfollow).1
          rw [redirects_length] at hcap
          omega
      · exact final_stops hroute hroom hserver hcode hrequested
  | succ room ih =>
    cases hserver : server (sent ++ [selected]) with
    | raised e => exact raised_stops hroute hroom hserver
    | response response =>
      by_cases hcode : response.statusCode ∈ redirectCodes
      · cases hfollow : policy.follow selected ((sent ++ [selected]).tail.map x.text) response with
        | error e => exact refused_stops hroute hroom hserver hcode hfollow
        | ok next =>
          obtain ⟨-, location, target, hlocation, htarget, haccepted⟩ := follow_ok hfollow
          have hroute' := hroute.redirect hserver hcode hlocation htarget haccepted
          have hhead : (sent ++ [selected] ++ [next]).head?.map x.text = some requested := by
            rw [← hrequested]
            cases sent <;> rfl
          obtain ⟨result, hbounded, hloop⟩ := ih (sent ++ [selected]) next hroute'
            (by simp only [List.length_append, List.length_singleton]; omega) hhead
          refine ⟨result, hbounded, ?_⟩
          intro reads fuel hreads hfuel
          have htail : (sent ++ [selected] ++ [next]).tail.map x.text =
              (sent ++ [selected]).tail.map x.text ++ [x.text next] := by
            cases sent <;> simp
          obtain ⟨fuel, rfl⟩ : ∃ n, fuel = n + 1 := ⟨fuel - 1, by omega⟩
          simp only [FetchPolicy.loop, hserver, if_pos hcode, hfollow]
          rw [← htail]
          exact hloop reads fuel hreads (by omega)
      · exact final_stops hroute hroom hserver hcode hrequested

/-- A fetch sends at most one request more than the cap of redirects, each to a URL that the
policy accepts, and what it returns is one whole response. -/
theorem fetch_is_bounded (policy : FetchPolicy x) (server : List Url → Reply) (url : String) :
    ∃ result, BoundedFetch policy server url result ∧
      (∀ u ∈ result.1, ∃ value, policy.validateUrl value = .ok u) ∧
      ∃ enough, ∀ fuel, enough ≤ fuel → policy.fetchHttps server url fuel = some result := by
  obtain ⟨-, -, -, hbytes, hredirects⟩ := policy.checked
  cases hfirst : policy.validateUrl url with
  | error e =>
    refine ⟨([], .error e), ⟨.inl rfl, ?_, ?_⟩, ?_, 0, ?_⟩
    · simp only [List.length_nil]
      omega
    · intro r hr
      cases hr
    · intro u hu
      cases hu
    · intro fuel _
      rw [FetchPolicy.fetchHttps, hfirst]
  | ok selected =>
    obtain ⟨result, hbounded, hloop⟩ := @loop_stops _ x server url policy
      policy.maxRedirects.toNat [] selected (x.text selected) (.start hfirst)
      (by simp only [List.length_nil]; omega) rfl
    refine ⟨result, hbounded, ?_,
      policy.maxResponseBytes.toNat + policy.maxRedirects.toNat + 1, ?_⟩
    · intro u hu
      rcases hbounded.route with hnone | hroute
      · rw [hnone] at hu
        cases hu
      · exact hroute.accepted u hu
    · intro fuel hfuel
      rw [FetchPolicy.fetchHttps, hfirst]
      exact hloop fuel fuel (by omega) (by omega)

/-! ## Exact origins -/

/-- The host and the port that a request connects to. -/
def Httpx.connected (x : Httpx Url) (u : Url) : String × Nat :=
  (x.rawHost u, (x.written u).getD 443)

/-- One URL writes port zero where the other connects to the default port. -/
def Httpx.ZeroMeetsDefault (x : Httpx Url) (u v : Url) : Prop :=
  x.rawHost u = x.rawHost v ∧ x.written u = some 0 ∧ (x.written v).getD 443 = 443

theorem origin_eq (x : Httpx Url) (u : Url) :
    x.origin u = (x.rawHost u, if x.written u = some 0 then 443 else (x.written u).getD 443) := by
  unfold Httpx.origin
  rw [x.port_eq]
  cases x.written u with
  | none => rfl
  | some n =>
    by_cases hn : n = 443
    · subst hn
      rfl
    · rw [if_neg (by simpa using hn)]
      cases n with
      | zero => rfl
      | succ n => simp

/-- Two origins are one exactly if the pairs are, or a port of zero meets the default. -/
theorem origin_eq_iff (x : Httpx Url) (u v : Url) :
    x.origin u = x.origin v ↔
      x.connected u = x.connected v ∨ x.ZeroMeetsDefault u v ∨ x.ZeroMeetsDefault v u := by
  rw [origin_eq, origin_eq]
  unfold Httpx.connected Httpx.ZeroMeetsDefault
  simp only [Prod.mk.injEq]
  by_cases hu : x.written u = some 0 <;> by_cases hv : x.written v = some 0
  · simp [hu, hv]
  · simp only [hu, if_true, Option.getD_some, hv, false_and, and_false, or_false,
      true_and]
    constructor
    · rintro ⟨hh, hp⟩
      exact .inr ⟨hh, hp.symm⟩
    · rintro (⟨hh, hp⟩ | ⟨hh, hp⟩)
      · exact absurd ((Option.getD_eq_iff.mp hp.symm).resolve_right (by simp)) hv
      · exact ⟨hh, hp.symm⟩
  · simp only [hv, if_true, Option.getD_some, hu, false_and, and_false, false_or,
      true_and]
    constructor
    · rintro ⟨hh, hp⟩
      exact .inr ⟨hh.symm, hp⟩
    · rintro (⟨hh, hp⟩ | ⟨hh, hp⟩)
      · exact absurd ((Option.getD_eq_iff.mp hp).resolve_right (by simp)) hu
      · exact ⟨hh.symm, hp⟩
  · simp [hu, hv]

theorem connected_origin {x : Httpx Url} {u v : Url} (h : x.connected u = x.connected v) :
    x.origin u = x.origin v := (origin_eq_iff x u v).mpr (.inl h)

theorem mapM_ok {α β : Type} {f : α → Except Exn β} {l : List α} {r : List β}
    (h : l.mapM f = .ok r) : List.Forall₂ (fun a b => f a = .ok b) l r := by
  induction l generalizing r with
  | nil =>
    cases h
    exact .nil
  | cons a l ih =>
    rw [List.mapM_cons] at h
    cases ha : f a with
    | error e =>
      rw [ha] at h
      cases h
    | ok b =>
      cases hl : l.mapM f with
      | error e =>
        rw [ha, hl] at h
        cases h
      | ok bs =>
        rw [ha, hl] at h
        cases h
        exact .cons ha (ih hl)

theorem mapM_of_forall {α β : Type} {f : α → Except Exn β} {l : List α} {r : List β}
    (h : List.Forall₂ (fun a b => f a = .ok b) l r) : l.mapM f = .ok r := by
  induction h with
  | nil => rfl
  | cons ha _ ih =>
    rw [List.mapM_cons, ha, ih]
    rfl

/-- The URLs of a policy's origins, and the origins they have. -/
theorem FetchPolicy.origins (policy : FetchPolicy x) :
    ∃ urls, List.Forall₂ (fun o u => x.url o = .ok u) policy.allowedOrigins urls ∧
      (urls.map x.origin).Nodup := by
  obtain ⟨identities, hids, hnodup, -, -⟩ := policy.checked
  have hall := mapM_ok hids
  generalize policy.allowedOrigins = l at hall
  suffices h : ∃ urls, List.Forall₂ (fun o u => x.url o = .ok u) l urls ∧
      urls.map x.origin = identities by
    obtain ⟨urls, hurls, hmap⟩ := h
    exact ⟨urls, hurls, by rw [hmap]; exact hnodup⟩
  clear hnodup hids
  induction hall with
  | nil => exact ⟨[], .nil, rfl⟩
  | @cons o i l ids ho _ ih =>
    obtain ⟨urls, hurls, hmap⟩ := ih
    unfold Httpx.identity at ho
    cases hu : x.url o with
    | error e =>
      rw [hu] at ho
      cases ho
    | ok u =>
      rw [hu] at ho
      change (if _ then _ else _) = _ at ho
      split at ho
      · cases ho
      · cases ho
        exact ⟨u :: urls, .cons hu hurls, by rw [List.map_cons, hmap]⟩

/-- A URL is accepted exactly if it has the origin of an allowed one. -/
theorem validateUrl_iff {policy : FetchPolicy x} {value : String} {parsed : Url} {urls : List Url}
    (hvalue : x.url value = .ok parsed)
    (hurls : List.Forall₂ (fun o u => x.url o = .ok u) policy.allowedOrigins urls) :
    (∃ u, policy.validateUrl value = .ok u) ↔ ∃ u ∈ urls, x.origin u = x.origin parsed := by
  have horigins : policy.allowedOrigins.mapM (fun origin => x.origin <$> x.url origin) =
      .ok (urls.map x.origin) := by
    apply mapM_of_forall
    rw [List.forall₂_map_right_iff]
    refine hurls.imp fun o u h => ?_
    rw [h]
    rfl
  unfold FetchPolicy.validateUrl
  rw [hvalue, horigins]
  change (∃ u, (if x.origin parsed ∉ urls.map x.origin then _ else _) = _) ↔ _
  rw [← List.mem_map]
  by_cases h : x.origin parsed ∈ urls.map x.origin
  · rw [if_neg (not_not.mpr h)]
    exact ⟨fun _ => h, fun _ => ⟨parsed, rfl⟩⟩
  · rw [if_pos h]
    exact ⟨fun ⟨u, hu⟩ => (by cases hu), fun hin => absurd hin h⟩

/-- A URL is accepted exactly if it connects where an allowed origin does, and no two allowed
origins connect to the same place. -/
def ExactOrigin (policy : FetchPolicy x) (value : String) (parsed : Url) : Prop :=
  ((∃ u, policy.validateUrl value = .ok u) ↔
    ∃ o ∈ policy.allowedOrigins, ∃ u, x.url o = .ok u ∧ x.connected u = x.connected parsed) ∧
  ∃ urls, List.Forall₂ (fun o u => x.url o = .ok u) policy.allowedOrigins urls ∧
    (urls.map x.connected).Nodup

theorem forall₂_mem {α β : Type} {R : α → β → Prop} {l : List α} {r : List β}
    (h : List.Forall₂ R l r) : (∀ a ∈ l, ∃ b ∈ r, R a b) ∧ ∀ b ∈ r, ∃ a ∈ l, R a b := by
  induction h with
  | nil => simp
  | @cons a b l r hab _ ih =>
    constructor
    · intro a' ha'
      rcases List.mem_cons.mp ha' with rfl | ha'
      · exact ⟨b, List.mem_cons_self, hab⟩
      · obtain ⟨b', hb', hr⟩ := ih.1 a' ha'
        exact ⟨b', List.mem_cons_of_mem b hb', hr⟩
    · intro b' hb'
      rcases List.mem_cons.mp hb' with rfl | hb'
      · exact ⟨a, List.mem_cons_self, hab⟩
      · obtain ⟨a', ha', hr⟩ := ih.2 b' hb'
        exact ⟨a', List.mem_cons_of_mem a ha', hr⟩

/-- Two allowed URLs of one origin are one. -/
theorem urls_unique {urls : List Url} (hnodup : (urls.map x.origin).Nodup) {u v : Url}
    (hu : u ∈ urls) (hv : v ∈ urls) (h : x.origin u = x.origin v) : u = v :=
  List.inj_on_of_nodup_map hnodup hu hv h

/-- Origins are exact as long as a port of zero does not meet the default port. -/
theorem origins_are_exact_iff_no_zero_port (policy : FetchPolicy x) {value : String} {parsed : Url}
    (hvalue : x.url value = .ok parsed) :
    ExactOrigin policy value parsed ↔ ∀ o ∈ policy.allowedOrigins, ∀ u, x.url o = .ok u →
      ¬ x.ZeroMeetsDefault u parsed ∧ ¬ x.ZeroMeetsDefault parsed u := by
  obtain ⟨urls, hurls, hnodup⟩ := policy.origins
  have hmem := forall₂_mem hurls
  have hvalid := validateUrl_iff hvalue hurls
  constructor
  · intro hexact o ho u hu
    obtain ⟨u', hu', hurl⟩ := hmem.1 o ho
    rw [hu] at hurl
    cases hurl
    by_contra hmeets
    have horigin : x.origin u = x.origin parsed := by
      rw [origin_eq_iff]
      by_cases hz : x.ZeroMeetsDefault u parsed
      · exact .inr (.inl hz)
      · exact .inr (.inr (by_contra fun hn => hmeets ⟨hz, hn⟩))
    -- another allowed origin that connects there would have the same origin
    obtain ⟨o', ho', v, hv, hconnected⟩ := hexact.1.mp (hvalid.mpr ⟨u, hu', horigin⟩)
    obtain ⟨v', hv', hurl⟩ := hmem.1 o' ho'
    rw [hv] at hurl
    cases hurl
    have huv : u = v :=
      urls_unique hnodup hu' hv' (horigin.trans (connected_origin hconnected).symm)
    subst huv
    have hport : (x.written u).getD 443 = (x.written parsed).getD 443 :=
      congrArg Prod.snd hconnected
    apply hmeets
    constructor
    · rintro ⟨-, hzero, hdefault⟩
      rw [hzero, hdefault] at hport
      cases hport
    · rintro ⟨-, hzero, hdefault⟩
      rw [hzero, hdefault] at hport
      cases hport
  · intro hno
    constructor
    · rw [hvalid]
      constructor
      · rintro ⟨u, hu, horigin⟩
        obtain ⟨o, ho, hurl⟩ := hmem.2 u hu
        have hnone := hno o ho u hurl
        rcases (origin_eq_iff x u parsed).mp horigin with h | h | h
        · exact ⟨o, ho, u, hurl, h⟩
        · exact absurd h hnone.1
        · exact absurd h hnone.2
      · rintro ⟨o, ho, u, hurl, hconnected⟩
        obtain ⟨u', hu', hurl'⟩ := hmem.1 o ho
        rw [hurl] at hurl'
        cases hurl'
        exact ⟨u, hu', connected_origin hconnected⟩
    · refine ⟨urls, hurls, ?_⟩
      have horigins : urls.Nodup := hnodup.of_map
      exact horigins.map_on fun u hu v hv h => urls_unique hnodup hu hv (connected_origin h)

/-- The URLs of one host, by their port: without one, with 0 and with 8443. -/
def oneHost : Httpx (Option Nat) where
  parse value := if value = "https://docs.example.test/" then some none
    else if value = "https://docs.example.test:0/" then some (some 0)
    else if value = "https://docs.example.test:8443/" then some (some 8443)
    else none
  text
    | none => "https://docs.example.test/"
    | some n => "https://docs.example.test:" ++ toString n ++ "/"
  join u _ := .ok u
  scheme _ := "https"
  host _ := "docs.example.test"
  rawHost _ := "docs.example.test"
  written u := u
  port u := if u = some 443 then none else u
  userinfo _ := ""
  fragment _ := ""
  path _ := "/"
  query _ := ""
  port_eq _ := rfl

/-- The policy of that host's default origin. -/
def onePolicy : FetchPolicy oneHost where
  allowedOrigins := ["https://docs.example.test/"]
  maxResponseBytes := 32
  timeoutSeconds := some 1
  accepted := by rfl

theorem origins_are_exact_iff_no_zero_port_sample :
    ExactOrigin onePolicy "https://docs.example.test:8443/" (some 8443) := by
  refine (origins_are_exact_iff_no_zero_port onePolicy (by rfl)).mpr ?_
  intro o ho u hu
  rw [List.mem_singleton.mp ho] at hu
  cases hu
  constructor
  · rintro ⟨-, h, -⟩
    cases h
  · rintro ⟨-, h, -⟩
    cases h

/-- A URL with port zero is accepted where only the default port is allowed. -/
theorem port_zero_passes_for_the_default :
    oneHost.url "https://docs.example.test:0/" = .ok (some 0) ∧
      ¬ ExactOrigin onePolicy "https://docs.example.test:0/" (some 0) := by
  refine ⟨by rfl, ?_⟩
  rintro ⟨hexact, -⟩
  obtain ⟨o, ho, u, hu, hconnected⟩ := hexact.mp ⟨some 0, by rfl⟩
  rw [List.mem_singleton.mp ho] at hu
  cases hu
  cases congrArg Prod.snd hconnected

end FlynnAgents
