import Mathlib.Data.List.Induction
import YtdlBot.Transport.Request

/-!
# Credentials stay with their origin

In every trace of a request, whatever the servers, the resolver and the URL library answer: how
many connections are opened and where, and what is still sent once a redirect has crossed to
another origin.
-/

namespace YtdlBot.Transport

open Framework
open Framework.Program

abbrev Requests := Trace RequestEffect RequestEffect.Result

/-- The URLs that were opened. -/
def opens (trace : Requests) : List String :=
  trace.filterMap fun event =>
    match event.1 with
    | .open _ _ url _ _ => some url
    | _ => none

/-- The last name that was looked up, with the answer. -/
def lastResolution (trace : Requests) : Option (String × Nat × Resolution) :=
  (trace.filterMap fun event =>
    match event with
    | ⟨.resolver host port, answer⟩ => some (host, port, answer)
    | _ => none).getLast?

/-- Two URLs that follow each other have different origins. -/
def Crossed (origin : String → Option Origin) (urls : List String) : Prop :=
  ∃ before first second after, urls = before ++ first :: second :: after ∧
    origin first ≠ origin second

/-- The last resolution was one for this URL that `URLPolicy` accepted, with this address as the
first of its public addresses. -/
def Approved (U : UrlLibrary) (trace : Requests) (url : String) (address : IpAddress) : Prop :=
  ∃ host port raw rest, resolveTarget U url = .ok (host, port) ∧
    lastResolution trace = some (host, port, .addresses raw) ∧
    approveAddresses U raw = .ok (address :: rest) ∧ ∀ a ∈ address :: rest, a.public = true

/-- Only allowlisted headers remain once an origin was crossed. -/
def Stripped (U : UrlLibrary) (urls : List String) (headers : Headers) : Prop :=
  Crossed U.origin urls → ∀ field ∈ headers, named crossOriginHeaderAllowlist field.1 = true

section Crossing

variable {origin : String → Option Origin} {urls : List String} {a b : String}

theorem crossed_singleton : ¬ Crossed origin [a] := by
  rintro ⟨before, first, second, after, hsplit, -⟩
  have hlength := congrArg List.length hsplit
  simp at hlength
  omega

/-- A crossing is at the last step or was there before it. -/
theorem crossed_concat (h : Crossed origin (urls ++ [a] ++ [b])) :
    Crossed origin (urls ++ [a]) ∨ origin a ≠ origin b := by
  obtain ⟨before, first, second, after, hsplit, hne⟩ := h
  rcases List.eq_nil_or_concat after with rfl | ⟨after, last, rfl⟩
  · have hpair : urls ++ [a] ++ [b] = (before ++ [first]) ++ [second] := by
      rw [hsplit, List.append_assoc]
      rfl
    obtain ⟨hurls, hb⟩ := List.append_inj' hpair rfl
    obtain ⟨-, ha⟩ := List.append_inj' hurls rfl
    obtain rfl := List.singleton_inj.mp ha
    obtain rfl := List.singleton_inj.mp hb
    exact .inr hne
  · have hshort : urls ++ [a] ++ [b] = (before ++ first :: second :: after) ++ [last] := by
      rw [hsplit, List.concat_eq_append, List.append_assoc]
      rfl
    obtain ⟨hurls, -⟩ := List.append_inj' hshort rfl
    exact .inl ⟨before, first, second, after, hurls, hne⟩

end Crossing

section Transport

variable (U : UrlLibrary) (maxRedirects : Nat)

/-- What may be opened after what was performed. -/
def mayOpen (trace : Requests) : RequestEffect → Prop
  | .open _ _ url headers address =>
    (opens trace).length ≤ maxRedirects ∧ Approved U trace url address ∧
      Stripped U (opens trace ++ [url]) headers
  | _ => True

variable {U maxRedirects} {trace : Requests} {hop next : Hop}

theorem approveAddresses_ok {raw : List String} {addresses : List IpAddress}
    (h : approveAddresses U raw = .ok addresses) : ∀ a ∈ addresses, a.public = true := by
  unfold approveAddresses at h
  split at h
  · cases h
  · rename_i addresses' hraw
    split at h
    · cases h
    split at h
    · cases h
    rename_i hpublic
    obtain rfl := Except.ok.inj h
    intro a ha
    by_contra hprivate
    exact hpublic (List.any_eq_true.mpr ⟨a, ha, by simpa using hprivate⟩)

theorem redirected_ok {response : Response} (h : redirected U hop response = .ok next) :
    (U.origin hop.url = U.origin next.url ∧ next.headers = hop.headers) ∨
    (U.origin hop.url ≠ U.origin next.url ∧
      next.headers = hop.headers.filter fun field =>
        named crossOriginHeaderAllowlist field.1) := by
  unfold redirected at h
  split at h
  · cases h
  · cases h
  rename_i location hlocation
  split at h
  · cases h
  rename_i nextUrl hjoin
  split at h
  case h_2 => cases h
  rename_i current target hcurrent htarget
  split at h
  · cases h
  dsimp only at h
  have hheaders : next.url = nextUrl ∧ next.headers = if current ≠ target then
      hop.headers.filter fun field => named crossOriginHeaderAllowlist field.1
      else hop.headers := by
    split at h
    · obtain rfl := Except.ok.inj h
      exact ⟨rfl, rfl⟩
    · obtain rfl := Except.ok.inj h
      exact ⟨rfl, rfl⟩
  obtain ⟨hurl, hheaders⟩ := hheaders
  rw [hurl, hcurrent, htarget]
  by_cases hsame : current = target
  · rw [if_neg (not_not.mpr hsame)] at hheaders
    exact .inl ⟨congrArg some hsame, hheaders⟩
  · rw [if_pos hsame] at hheaders
    exact .inr ⟨fun h => hsame (Option.some.inj h), hheaders⟩

theorem stripped_redirected {response : Response} (h : redirected U hop response = .ok next)
    {urls : List String} (hs : Stripped U (urls ++ [hop.url]) hop.headers) :
    Stripped U (urls ++ [hop.url] ++ [next.url]) next.headers := by
  intro hcrossed field hfield
  rcases redirected_ok h with ⟨hsame, hheaders⟩ | ⟨-, hheaders⟩
  · rw [hheaders] at hfield
    rcases crossed_concat hcrossed with hbefore | hnow
    · exact hs hbefore field hfield
    · exact absurd hsame hnow
  · rw [hheaders] at hfield
    exact (List.mem_filter.mp hfield).2

/-- What was opened and what was looked up last. -/
structure Stands (trace : Requests) (urls : List String)
    (resolution : Option (String × Nat × Resolution)) : Prop where
  opens : opens trace = urls
  resolution : lastResolution trace = resolution

variable {urls : List String} {resolution : Option (String × Nat × Resolution)}

theorem Stands.remaining (h : Stands trace urls resolution) (answer : Bool) :
    Stands (trace ++ [⟨.remaining, answer⟩]) urls resolution := by
  constructor
  · rw [← h.opens]
    simp [Transport.opens]
  · rw [← h.resolution]
    simp [lastResolution]

theorem Stands.closeResponse (h : Stands trace urls resolution) {response : Response}
    (answer : Except TransferError Unit) :
    Stands (trace ++ [⟨.closeResponse response, answer⟩]) urls resolution := by
  constructor
  · rw [← h.opens]
    simp [Transport.opens]
  · rw [← h.resolution]
    simp [lastResolution]

theorem Stands.resolver (h : Stands trace urls resolution) {host : String} {port : Nat}
    (answer : Resolution) :
    Stands (trace ++ [⟨.resolver host port, answer⟩]) urls (some (host, port, answer)) := by
  constructor
  · rw [← h.opens]
    simp [Transport.opens]
  · simp [lastResolution]

theorem Stands.open (h : Stands trace urls resolution) {proxy : Option String}
    {method url : String} {headers : Headers} {address : IpAddress} (answer : Connection) :
    Stands (trace ++ [⟨.open proxy method url headers address, answer⟩]) (urls ++ [url])
      resolution := by
  constructor
  · rw [← h.opens]
    simp [Transport.opens]
  · rw [← h.resolution]
    simp [lastResolution]

theorem follows_checkRemaining (h : Stands trace urls resolution) :
    Follows (history (mayOpen U maxRedirects)) trace checkRemaining fun _ trace' =>
      Stands trace' urls resolution := by
  apply follows_attempt trivial
  intro answer _ _
  exact h.remaining answer

theorem follows_resolve (h : Stands trace urls resolution) {url : String} :
    Follows (history (mayOpen U maxRedirects)) trace (resolve U url) fun resolved trace' =>
      ∃ host port raw, resolveTarget U url = .ok (host, port) ∧
        Stands trace' urls (some (host, port, .addresses raw)) ∧
        approveAddresses U raw = .ok resolved.addresses := by
  apply follows_ofExcept_bind
  rintro ⟨host, port⟩ htarget
  apply follows_attempt_bind trivial
  intro answer raw hraw
  have hanswer : answer = .addresses raw := by
    cases answer with
    | addresses raw' => exact congrArg Resolution.addresses (Except.ok.inj hraw)
    | osError => cases hraw
    | valueError => cases hraw
    | timeout => cases hraw
    | other => cases hraw
  subst hanswer
  apply follows_ofExcept_bind
  intro addresses haddresses
  apply follows_pure
  exact ⟨host, port, raw, htarget, h.resolver _, haddresses⟩

/-- A hop opens its own URL, once, at an address approved for it. -/
theorem follows_openHop {proxy : Option String} (h : Stands trace urls resolution)
    (hcount : urls.length ≤ maxRedirects) (hs : Stripped U (urls ++ [hop.url]) hop.headers) :
    Follows (history (mayOpen U maxRedirects)) trace (openHop U proxy hop) fun _ trace' =>
      ∃ resolution', Stands trace' (urls ++ [hop.url]) resolution' := by
  apply (follows_checkRemaining h).bind
  intro _ trace₁ h₁
  apply (follows_resolve h₁).bind
  rintro resolved trace₂ ⟨host, port, raw, htarget, h₂, happroved⟩
  apply (follows_checkRemaining h₂).bind
  intro _ trace₃ h₃
  split
  · exact follows_raise
  · rename_i address rest haddresses
    rw [haddresses] at happroved
    have hpublic := approveAddresses_ok happroved
    apply follows_attempt
    · show (opens trace₃).length ≤ maxRedirects ∧ _
      rw [h₃.opens]
      exact ⟨hcount, ⟨host, port, raw, rest, htarget, h₃.resolution, happroved, hpublic⟩, hs⟩
    · intro answer _ _
      exact ⟨_, h₃.open answer⟩

theorem follows_requestLoop {proxy : Option String} {attempts : Nat}
    (h : Stands trace urls resolution) (hcount : urls.length + attempts ≤ maxRedirects + 1)
    (hs : Stripped U (urls ++ [hop.url]) hop.headers) :
    Follows (history (mayOpen U maxRedirects)) trace (requestLoop U proxy attempts hop)
      fun _ _ => True := by
  induction attempts generalizing trace urls resolution hop with
  | zero => exact follows_raise
  | succ attempts ih =>
    apply (follows_openHop h (by omega) hs).bind
    rintro response trace₁ ⟨resolution₁, h₁⟩
    apply follows_ite
    · intro _
      exact follows_pure trivial
    · intro _
      apply follows_attempt_bind trivial
      intro closed _ _
      apply follows_ite
      · intro _
        exact follows_raise
      · intro _
        apply follows_ofExcept_bind
        intro next hnext
        have hlength : (urls ++ [hop.url]).length + attempts ≤ maxRedirects + 1 := by
          rw [List.length_append, List.length_singleton]
          omega
        exact ih (h₁.closeResponse closed) hlength (stripped_redirected hnext hs)

theorem follows_request {proxyUrl : String → Option String} {method url : String}
    {headers : Headers} {bodySensitive : Bool} {proxyKey : Option String} :
    Follows (history (mayOpen U maxRedirects)) []
      (request U maxRedirects proxyUrl method url headers bodySensitive proxyKey)
      fun _ _ => True := by
  have hstart : Stands [] [] none := ⟨rfl, rfl⟩
  apply (follows_checkRemaining hstart).bind
  intro _ trace h
  have hs : Stripped U ([] ++ [url]) headers := fun hcrossed => absurd hcrossed crossed_singleton
  have hcount : ([] : List String).length + (maxRedirects + 1) ≤ maxRedirects + 1 := by simp
  dsimp only
  split
  · exact follows_requestLoop h hcount hs
  · split
    · exact follows_raise
    · exact follows_requestLoop h hcount hs

theorem opens_concat (trace : Trace RequestEffect RequestEffect.Result) (event : (effect : RequestEffect) × effect.Result) :
    (opens (trace ++ [event])).length ≤ (opens trace).length + 1 ∧
      ((∀ proxy method url headers address, event.1 ≠ .open proxy method url headers address) →
        opens (trace ++ [event]) = opens trace) := by
  obtain ⟨effect, result⟩ := event
  cases effect with
  | «open» proxy method url headers address =>
    refine ⟨by simp [opens], fun hne => ?_⟩
    exact absurd rfl (hne proxy method url headers address)
  | remaining => simp [opens]
  | resolver host port => simp [opens]
  | closeResponse response => simp [opens]

/-- When no opening has more than `n` openings before it, there are at most `n + 1`. -/
theorem opens_length {n : Nat} (h : ∀ before proxy method url headers address result after,
    trace = before ++ ⟨.open proxy method url headers address, result⟩ :: after →
    (opens before).length ≤ n) : (opens trace).length ≤ n + 1 := by
  induction trace using List.reverseRecOn with
  | nil => simp [opens]
  | append_singleton trace event ih =>
    obtain ⟨hone, hnone⟩ := opens_concat trace event
    by_cases hopen : ∃ proxy method url headers address,
        event.1 = .open proxy method url headers address
    · obtain ⟨proxy, method, url, headers, address, heffect⟩ := hopen
      obtain ⟨effect, result⟩ := event
      obtain rfl := heffect
      have hbefore := h trace proxy method url headers address result [] rfl
      omega
    · rw [hnone fun proxy method url headers address heffect =>
        hopen ⟨proxy, method, url, headers, address, heffect⟩]
      apply ih
      intro before proxy method url headers address result after hsplit
      apply h before proxy method url headers address result (after ++ [event])
      rw [hsplit, List.append_assoc]
      rfl

end Transport

namespace Providers

variable {β : Type} {U : UrlLibrary} {sent next : Sent β}

abbrev Requests (β : Type) := Trace (Sent β) fun _ => Except RequestError Response

def urls (trace : Requests β) : List String := trace.map fun event => event.1.url

/-- Nothing sensitive is sent once an origin was crossed. -/
def Harmless (U : UrlLibrary) (urls : List String) (sent : Sent β) : Prop :=
  Crossed (origin U) urls →
    (∀ field ∈ sent.headers, named sensitiveHeaders field.1 = false) ∧ sent.json = none ∧
      sent.data = none

theorem redirected_ok {response : Response} (hstatus : response.statusCode ∈ redirects)
    (h : redirected U sent response = .ok next) :
    (origin U sent.url = origin U next.url ∧ next.headers = sent.headers ∧
      (sent.json = none → next.json = none) ∧ (sent.data = none → next.data = none)) ∨
    (next.headers = (sent.headers.filter fun field => !named sensitiveHeaders field.1) ∧
      next.json = none ∧ next.data = none) := by
  unfold redirected at h
  split at h
  · cases h
  · cases h
  rename_i location hlocation
  split at h
  · cases h
  rename_i nextUrl hjoin
  split at h
  case h_2 => cases h
  rename_i target current htarget hcurrent
  split at h
  · cases h
  rename_i hrefused
  dsimp only at h
  by_cases hsame : target = current
  · rw [if_neg (not_not.mpr hsame)] at h
    left
    split at h
    · obtain rfl := Except.ok.inj h
      exact ⟨by rw [hcurrent, htarget, hsame], rfl, fun _ => rfl, fun _ => rfl⟩
    · obtain rfl := Except.ok.inj h
      exact ⟨by rw [hcurrent, htarget, hsame], rfl, id, id⟩
  · rw [if_pos hsame] at h
    right
    split at h
    · obtain rfl := Except.ok.inj h
      exact ⟨rfl, rfl, rfl⟩
    · rename_i hkept
      obtain rfl := Except.ok.inj h
      have hpreserving : response.statusCode ∈ [307, 308] := by
        simp only [redirects, List.mem_cons, List.not_mem_nil, or_false] at hstatus hkept ⊢
        omega
      have hbody : ¬ (sent.json.isSome ∨ sent.data.isSome) := fun hbody =>
        hrefused ⟨hsame, hpreserving, hbody⟩
      simp only [not_or, Option.not_isSome_iff_eq_none] at hbody
      exact ⟨rfl, hbody.1, hbody.2⟩

theorem harmless_redirected {response : Response} (hstatus : response.statusCode ∈ redirects)
    (h : redirected U sent response = .ok next) {urls : List String}
    (hs : Harmless U (urls ++ [sent.url]) sent) :
    Harmless U (urls ++ [sent.url] ++ [next.url]) next := by
  intro hcrossed
  rcases redirected_ok hstatus h with ⟨hsame, hheaders, hjson, hdata⟩ | ⟨hheaders, hjson, hdata⟩
  · rcases crossed_concat hcrossed with hbefore | hnow
    · obtain ⟨hnone, hnojson, hnodata⟩ := hs hbefore
      exact ⟨hheaders ▸ hnone, hjson hnojson, hdata hnodata⟩
    · exact absurd hsame hnow
  · refine ⟨?_, hjson, hdata⟩
    intro field hfield
    rw [hheaders] at hfield
    simpa using (List.mem_filter.mp hfield).2

theorem follows_responseLoop {attempts : Nat} {trace : Requests β}
    (hs : Harmless U (urls trace ++ [sent.url]) sent) :
    Follows (history fun trace sent => Harmless U (urls trace ++ [sent.url]) sent) trace
      (responseLoop U attempts sent) fun _ _ => True := by
  induction attempts generalizing trace sent with
  | zero => exact follows_raise
  | succ attempts ih =>
    apply follows_attempt_bind hs
    intro answer response _
    apply follows_ite
    · intro _
      exact follows_pure trivial
    · intro hstatus
      apply follows_ite
      · intro _
        exact follows_raise
      · intro _
        apply follows_ofExcept_bind
        intro next hnext
        have hurls : urls (trace ++ [⟨sent, answer⟩]) = urls trace ++ [sent.url] := by
          simp [urls]
        apply ih
        show Harmless U (urls (trace ++ [⟨sent, answer⟩]) ++ [next.url]) next
        rw [hurls]
        exact harmless_redirected (not_not.mp hstatus) hnext hs

end Providers

/-- Credentials stay with their origin, in both redirect loops. -/
theorem credentials_stay_with_origin (U : UrlLibrary) :
    (∀ maxRedirects proxyUrl method url headers bodySensitive proxyKey (trace : Requests),
      Performs (request U maxRedirects proxyUrl method url headers bodySensitive proxyKey) trace →
      (opens trace).length ≤ maxRedirects + 1 ∧
      ∀ before proxy method url headers address result after,
        trace = before ++ ⟨.open proxy method url headers address, result⟩ :: after →
        Approved U before url address ∧ Stripped U (opens before ++ [url]) headers) ∧
    (∀ (β : Type) maxRedirects (sent : Providers.Sent β) (trace : Providers.Requests β),
      Performs (Providers.requestResponse U maxRedirects sent) trace →
      ∀ before sent result after, trace = before ++ ⟨sent, result⟩ :: after →
        Providers.Harmless U (Providers.urls before ++ [sent.url]) sent) := by
  constructor
  · intro maxRedirects proxyUrl method url headers bodySensitive proxyKey trace hperforms
    have hallowed := fun before proxy method url headers address result after hsplit =>
      (follows_request (U := U)).allowed hperforms before
        (.open proxy method url headers address) result after hsplit
    constructor
    · exact opens_length fun before proxy method url headers address result after hsplit =>
        (hallowed before proxy method url headers address result after hsplit).1
    · intro before proxy method url headers address result after hsplit
      exact (hallowed before proxy method url headers address result after hsplit).2
  · intro β maxRedirects sent trace hperforms before sent' result after hsplit
    have hstart : Providers.Harmless U
        (Providers.urls ([] : Providers.Requests β) ++ [sent.url]) sent :=
      fun hcrossed => absurd hcrossed crossed_singleton
    exact (Providers.follows_responseLoop hstart).allowed hperforms _ _ _ _ hsplit

/-- Two hosts with public addresses. -/
def twoHosts : UrlLibrary where
  urlsplit url :=
    if url = "https://cdn.example/v" then some ⟨"https", some "cdn.example", none, none, none⟩
    else if url = "https://other.example/v" then
      some ⟨"https", some "other.example", none, none, none⟩
    else none
  urljoin _ location := some location
  ipAddress text :=
    if text = "93.184.216.34" ∨ text = "1.1.1.1" then some ⟨text, true, false, false, false⟩
    else none
  lowerHost host := host

def redirectAway : Response := ⟨303, [("Location", "https://other.example/v")]⟩

def withKey : Providers.Sent String :=
  ⟨"GET", "https://cdn.example/v", [("Authorization", "key"), ("Accept", "*/*")], none, none⟩

def withoutKey : Providers.Sent String :=
  ⟨"GET", "https://other.example/v", [("Accept", "*/*")], none, none⟩

theorem credentials_stay_with_origin_twoHosts :
    (let before : Requests :=
      [⟨.remaining, true⟩, ⟨.remaining, true⟩,
        ⟨.resolver "cdn.example" 443, Resolution.addresses ["93.184.216.34"]⟩,
        ⟨.remaining, true⟩,
        ⟨.open none "GET" "https://cdn.example/v" [("Cookie", "sid"), ("Range", "bytes=0-31")]
          ⟨"93.184.216.34", true, false, false, false⟩, Connection.response redirectAway⟩,
        ⟨.closeResponse redirectAway, (.ok () : Except TransferError Unit)⟩,
        ⟨.remaining, true⟩,
        ⟨.resolver "other.example" 443, Resolution.addresses ["1.1.1.1"]⟩,
        ⟨.remaining, true⟩]
    Approved twoHosts before "https://other.example/v" ⟨"1.1.1.1", true, false, false, false⟩ ∧
      Stripped twoHosts (opens before ++ ["https://other.example/v"])
        [("Range", "bytes=0-31")]) ∧
    Providers.Harmless twoHosts ["https://cdn.example/v", "https://other.example/v"]
      withoutKey := by
  constructor
  · refine (((credentials_stay_with_origin twoHosts).1 1 (fun _ => none) "get"
      "https://cdn.example/v" [("Cookie", "sid"), ("Range", "bytes=0-31")] false none _ ?_).2
      _ none "GET" _ _ _ Connection.other [] rfl)
    exact .performed (.performed (.performed (.performed (.performed (.performed (.performed
      (.performed (.performed (.performed (.stopped _))))))))))
  · refine (credentials_stay_with_origin twoHosts).2 String 3 withKey _ ?_
      [⟨withKey, .ok redirectAway⟩] withoutKey (.error (.other "")) [] rfl
    apply Performs.performed
    show Performs (Providers.responseLoop twoHosts 3 withoutKey) _
    exact .performed (.stopped _)

end YtdlBot.Transport
