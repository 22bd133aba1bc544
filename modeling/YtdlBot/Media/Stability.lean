import YtdlBot.Media.Canonical

/-!
# Stability of canonical URLs

A request is built once more from its canonical URL. The videos of YouTube keep their identifier,
other URLs the parts of their rewriting, where their host survives. Parameters that track leave a
request as it is.
-/

namespace YtdlBot.Media.Requests

open Framework.Percent Framework.Urls Times

section Videos

variable {U : Unicode} {o : Options} {url : List Char} {r : MediaRequest}

theorem parseVideo_ok {mediaId : List Char} {query : Query}
    (h : parseVideo U url = .ok (mediaId, query)) :
    isValidYoutubeId mediaId = true ∧
      ∀ parsed, urlsplit U url = some parsed → hostOf U parsed ∈ youtubeHosts := by
  unfold parseVideo at h
  split at h
  · cases h
  next parsed hparsed =>
    split at h
    · cases h
    split_ifs at h
    dsimp only at h
    split at h
    next found hfound =>
      split_ifs at h with hvalid
      cases h
      refine ⟨hvalid, fun parsed' hparsed' => ?_⟩
      obtain rfl := Option.some.inj (hparsed.symm.trans hparsed')
      unfold videoOf at hfound
      dsimp only at hfound
      split_ifs at hfound with hwatch _ _ hshort
      · exact List.mem_append_left _ hwatch
      · exact List.mem_append_left _ hwatch
      · exact List.mem_append_right _ (List.mem_singleton.mpr hshort)
    · cases h

theorem quotePlus_valid {mediaId : List Char} (h : isValidYoutubeId mediaId = true) :
    quotePlus mediaId = mediaId ∧ quote ['-', '_'] mediaId = mediaId := by
  have hsafe : ∀ c ∈ mediaId, alwaysSafe c = true ∧ c ≠ ' ' := by
    intro c hc
    have hvalid := List.all_eq_true.mp (Bool.and_eq_true_iff.mp h).2 c hc
    constructor
    · simp only [alwaysSafe, Bool.or_eq_true, decide_eq_true_eq, List.mem_cons, List.not_mem_nil,
        or_false] at hvalid ⊢
      tauto
    · rintro rfl
      exact absurd hvalid (by decide)
  have hself : ∀ safe, quote safe mediaId = mediaId := fun safe => quote_eq_self fun c hc =>
    ⟨isQuoted_ascii (by simp [isQuoted, (hsafe c hc).1]), .inl (hsafe c hc).1⟩
  refine ⟨?_, hself _⟩
  rw [quotePlus, hself]
  exact (List.map_congr_left fun c hc => if_neg (hsafe c hc).2).trans (List.map_id _)

/-- The parts of the canonical URL of a video. -/
def watchParts (mediaId : List Char) : SplitResult where
  scheme := "https".toList
  netloc := "www.youtube.com".toList
  path := "/watch".toList
  query := urlencode [(['v'], mediaId)]
  fragment := []

theorem urlsplit_watchUrl {mediaId : List Char} (h : isValidYoutubeId mediaId = true) :
    urlsplit U (watchUrl mediaId) = some (watchParts mediaId) := by
  have hurl : watchUrl mediaId = urlunsplit "https".toList (watchParts mediaId).netloc
      (watchParts mediaId).path (watchParts mediaId).query := by
    have hv : quotePlus ['v'] = ['v'] := (quotePlus_valid (by decide)).1
    have hquery : urlencode [(['v'], mediaId)] = 'v' :: '=' :: mediaId := by
      rw [urlencode, List.map_singleton, List.intercalate_singleton, hv, (quotePlus_valid h).1]
      rfl
    simp [watchUrl_eq, (quotePlus_valid h).2, watchParts, hquery, urlunsplit]
  have hparts : Parts (watchParts mediaId) := by
    refine ⟨?_, ?_, fun _ => .inr rfl, fun c hc => urlencode_clean hc⟩
    · have hall : ("www.youtube.com".toList.all fun c => !endsNetloc c && !isDropped c) = true := by
        decide
      intro c hc
      simpa using List.all_eq_true.mp hall c hc
    · have hall : ("/watch".toList.all fun c => c != '?' && c != '#' && !isDropped c) = true := by
        decide
      intro c hc
      simpa [and_assoc] using List.all_eq_true.mp hall c hc
  rw [hurl, urlsplit_urlunsplit hparts rfl rfl rfl]
  rfl

theorem hostOf_watchParts (mediaId : List Char) :
    (watchParts mediaId).hostname U = some "www.youtube.com".toList ∧
      U.lower "www.youtube.com".toList = "www.youtube.com".toList := by
  have hlower : U.lower "www.youtube.com".toList = "www.youtube.com".toList := by
    rw [U.lower_ascii]
    · decide
    · have hall : ("www.youtube.com".toList.all fun c => c.toNat < 0x80) = true := by decide
      exact fun c hc => by simpa using List.all_eq_true.mp hall c hc
  have hpair : (watchParts mediaId).hostAndPort = ("www.youtube.com".toList, []) := rfl
  have hcut : cut '%' "www.youtube.com".toList = ("www.youtube.com".toList, none) := by decide
  refine ⟨?_, hlower⟩
  have hne : "www.youtube.com".toList ≠ [] := by decide
  simp only [SplitResult.hostname, hpair, hne, if_false, hcut, hlower, List.append_nil]

theorem parseVideo_watchUrl {mediaId : List Char} (h : isValidYoutubeId mediaId = true) :
    parseVideo U (watchUrl mediaId) = .ok (mediaId, [(['v'], mediaId)]) := by
  obtain ⟨hname, hlower⟩ := hostOf_watchParts (U := U) mediaId
  obtain ⟨c, rest, rfl⟩ : ∃ c rest, mediaId = c :: rest :=
    List.exists_cons_of_ne_nil (by simpa using (Bool.and_eq_true_iff.mp h).1)
  have hport : (watchParts (c :: rest)).port = some none := rfl
  have hdots : stripDots "www.youtube.com".toList = "www.youtube.com".toList := by decide
  have hquery : parseQsl true (watchParts (c :: rest)).query = [(['v'], c :: rest)] :=
    parseQsl_urlencode _
  have hparts : pathParts (watchParts (c :: rest)).path = ["watch".toList] := by
    simp only [watchParts]
    decide
  have hvideo : videoOf "www.youtube.com".toList (watchParts (c :: rest)).path
      [(['v'], c :: rest)] = some (c :: rest) := by
    have hwatch : "www.youtube.com".toList ∈ watchHosts := by decide
    simp only [videoOf, hwatch, if_true, hparts, List.head?_cons]
    simp [firstQueryValue]
  have hscheme : (watchParts (c :: rest)).scheme ∈ ["http".toList, "https".toList] :=
    List.mem_cons_of_mem _ List.mem_cons_self
  simp only [parseVideo, urlsplit_watchUrl h, hport, hname, Option.getD_some, hlower, hdots, hquery,
    hvideo, h, hscheme, not_true_eq_false, reduceCtorEq, or_self, if_false, if_true]

theorem parseMediaUrl_watchUrl {mediaId : List Char} (h : isValidYoutubeId mediaId = true) :
    parseMediaUrl U (watchUrl mediaId) = .ok (watchUrl mediaId, "youtube", mediaId, .empty) := by
  have hclip : parseClip [(['v'], mediaId)] = .ok .empty := by
    have hordered : Ordered none none := by simp [Ordered]
    have hstart : firstQueryValue [(['v'], mediaId)] startNames = none := by
      simp [firstQueryValue, startNames, List.lookup]
    have hstop : firstQueryValue [(['v'], mediaId)] endNames = none := by
      simp [firstQueryValue, endNames, List.lookup]
    simp [parseClip, hstart, hstop, parseOptionalTime, bind, Except.bind,
      ClipInterval.create_of_ordered hordered, ClipInterval.empty]
  simp [parseMediaUrl, parseVideo_watchUrl h, hclip, bind, Except.bind]

theorem fromUrl_ok (h : fromUrl U o url = .ok r) :
    ∃ mediaId query clip, parseVideo U url = .ok (mediaId, query) ∧
      r = o.request (watchUrl mediaId) "youtube" mediaId (o.clip.getD clip)
        (defaultVariant U o url) := by
  unfold fromUrl parseMediaUrl at h
  cases hvideo : parseVideo U url with
  | error e => simp [hvideo, bind, Except.bind] at h
  | ok found =>
    obtain ⟨mediaId, query⟩ := found
    cases hclip : parseClip query with
    | error e => simp [hvideo, hclip, bind, Except.bind] at h
    | ok clip =>
      refine ⟨mediaId, query, clip, rfl, ?_⟩
      simpa [hvideo, hclip, bind, Except.bind, eq_comm] using h

/-- The options of a request that is built once more. -/
def Options.again (o : Options) (r : MediaRequest) : Options :=
  { o with clip := some r.clip, outputVariant := r.outputVariant }

theorem defaultVariant_again (clip : Option ClipInterval) {mediaId : List Char}
    (h : isValidYoutubeId mediaId = true) :
    defaultVariant U { o with clip := clip, outputVariant := defaultVariant U o url }
      (watchUrl mediaId) = defaultVariant U o url := by
  have hshort : isShort U (watchUrl mediaId) = false := by
    have hparts : pathParts (watchParts mediaId).path = ["watch".toList] := by
      simp only [watchParts]
      decide
    simp [isShort, urlsplit_watchUrl h, hparts]
  unfold defaultVariant
  dsimp only
  rw [hshort]
  by_cases hfree : o.outputVariant = none ∧ (o.kind = .auto ∨ o.kind = .video) ∧
      o.quality.maxEdge = none
  · rw [if_pos hfree]
    by_cases hurl : isShort U url = true
    · simp [hurl]
    · by_cases hcommand : o.kind = .video ∧ o.callerScope = "command"
      · simp [hurl, hcommand]
      · simp [hurl, hcommand]
  · simp [hfree]

theorem fromUrl_again (h : fromUrl U o url = .ok r) :
    fromUrl U (o.again r) r.canonicalUrl = .ok r := by
  obtain ⟨mediaId, query, clip, hvideo, hr⟩ := fromUrl_ok h
  have hvalid := (parseVideo_ok hvideo).1
  have hurl : r.canonicalUrl = watchUrl mediaId := by rw [hr]; rfl
  have hvariant : defaultVariant U (o.again r) (watchUrl mediaId) = defaultVariant U o url := by
    rw [hr]
    exact defaultVariant_again _ hvalid
  rw [hurl, fromUrl, parseMediaUrl_watchUrl hvalid]
  change Except.ok ((o.again r).request (watchUrl mediaId) "youtube" mediaId r.clip
    (defaultVariant U (o.again r) (watchUrl mediaId))) = .ok r
  rw [hvariant, hr]
  rfl

end Videos

section Generic

variable {U : Unicode} {hexdigest : List Char → List Char} {o : Options} {url : List Char}
  {r : MediaRequest}

/-- The request for a URL outside YouTube. -/
def genericRequest (U : Unicode) (hexdigest : List Char → List Char) (o : Options) (s : SplitResult)
    (port : Option ℕ) : MediaRequest :=
  o.request (canonicalOf U s port) (platformForHost (hostOf U s))
    (genericMediaId hexdigest (platformForHost (hostOf U s)) s.path (canonicalQuery U s.query)
      (canonicalOf U s port)) (o.clip.getD .empty) o.outputVariant

/-- The URL is one that `_canonicalize_generic_url` takes. -/
structure Accepted (U : Unicode) (url : List Char) (s : SplitResult) (port : Option ℕ) : Prop where
  split : urlsplit U url = some s
  port : s.port = some port
  scheme : s.scheme ∈ ["http".toList, "https".toList]
  host : hostOf U s ≠ []
  credentials : '@' ∉ s.netloc

theorem canonicalizeGenericUrl_ok {found : List Char × String × List Char} :
    canonicalizeGenericUrl U hexdigest url = .ok found ↔ ∃ s port, Accepted U url s port ∧
      found = (canonicalOf U s port, platformForHost (hostOf U s),
        genericMediaId hexdigest (platformForHost (hostOf U s)) s.path (canonicalQuery U s.query)
          (canonicalOf U s port)) := by
  constructor
  · intro h
    unfold canonicalizeGenericUrl at h
    split at h
    · cases h
    next s hsplit =>
      split at h
      · cases h
      next port hport =>
        dsimp only at h
        split at h
        · cases h
        next hform =>
          split at h
          · cases h
          next hcredentials =>
            obtain ⟨hscheme, hhost⟩ := not_or.mp hform
            refine ⟨s, port, ⟨hsplit, hport, not_not.mp hscheme, hhost, ?_⟩, ?_⟩
            · simpa [SplitResult.hasCredentials] using hcredentials
            · exact (Except.ok.inj h).symm
  · rintro ⟨s, port, h, rfl⟩
    have hcredentials : s.hasCredentials = false := by
      simpa [SplitResult.hasCredentials] using h.credentials
    have hform : ¬ (s.scheme ∉ ["http".toList, "https".toList] ∨ hostOf U s = []) :=
      not_or.mpr ⟨not_not.mpr h.scheme, h.host⟩
    simp only [canonicalizeGenericUrl, h.split, h.port, hform, hcredentials, if_false,
      Bool.false_eq_true]
    rfl

/-- The canonical URL is one that `urlsplit` takes, outside YouTube. -/
structure Outside (U : Unicode) (s : SplitResult) (port : Option ℕ) : Prop where
  split : urlsplit U (canonicalOf U s port) = some (rewritten U s port)
  host : ∀ host, (rewritten U s port).hostname U = some host → host ∉ youtubeHosts

theorem Accepted.split_canonical {s : SplitResult} {port : Option ℕ} (h : Accepted U url s port)
    {parsed : SplitResult} (hparsed : urlsplit U (canonicalOf U s port) = some parsed) :
    parsed = rewritten U s port ∧ bracketsValid (rewritten U s port).netloc = true := by
  rw [urlsplit_canonicalOf (parts_of_urlsplit h.split) h.host] at hparsed
  obtain ⟨hvalid, hsome⟩ := Option.ite_none_right_eq_some.mp hparsed
  exact ⟨(Option.some.inj hsome).symm, (Bool.and_eq_true_iff.mp hvalid).1⟩

theorem build_ok : buildWithInterval U hexdigest o url = .ok r ↔ fromUrl U o url = .ok r ∨
    (∃ message, fromUrl U o url = .error (.unsupported message)) ∧
      ∃ s port, Accepted U url s port ∧ Outside U s port ∧
        r = genericRequest U hexdigest o s port := by
  unfold buildWithInterval
  cases hfrom : fromUrl U o url with
  | ok found => simp
  | error e =>
    cases e with
    | valueError => simp
    | unsupported message =>
      simp only [reduceCtorEq, false_or, Except.error.injEq, UrlError.unsupported.injEq,
        exists_eq', true_and]
      constructor
      · intro h
        cases hcanonical : canonicalizeGenericUrl U hexdigest url with
        | error e => simp [hcanonical, bind, Except.bind] at h
        | ok found =>
          obtain ⟨s, port, haccepted, rfl⟩ := canonicalizeGenericUrl_ok.mp hcanonical
          rw [hcanonical] at h
          simp only [bind, Except.bind] at h
          cases hsplit : urlsplit U (canonicalOf U s port) with
          | none => simp [hsplit] at h
          | some parsed =>
            obtain ⟨rfl, -⟩ := haccepted.split_canonical hsplit
            simp only [hsplit] at h
            cases hname : (rewritten U s port).hostname U with
            | none =>
              rw [hname] at h
              exact ⟨s, port, haccepted, ⟨hsplit, by simp [hname]⟩, (Except.ok.inj h).symm⟩
            | some host =>
              rw [hname] at h
              dsimp only at h
              split_ifs at h with hhost
              have hhosts : ∀ host', some host = some host' → host' ∉ youtubeHosts := by
                rintro _ ⟨⟩
                exact hhost
              exact ⟨s, port, haccepted, ⟨hsplit, by rwa [hname]⟩, (Except.ok.inj h).symm⟩
      · rintro ⟨s, port, haccepted, houtside, rfl⟩
        rw [canonicalizeGenericUrl_ok.mpr ⟨s, port, haccepted, rfl⟩]
        simp only [bind, Except.bind, houtside.split]
        cases hname : (rewritten U s port).hostname U with
        | none => rfl
        | some host =>
          dsimp only
          rw [if_neg (houtside.host host hname)]
          rfl

theorem platformForHost_ne (host : List Char) : platformForHost host ≠ "youtube" := by
  unfold platformForHost
  split_ifs <;> decide

theorem canonicalQuery_again (query : List Char) :
    canonicalQuery U (urlencode (canonicalQuery U query)) = canonicalQuery U query := by
  rw [canonicalQuery, parseQsl_urlencode, canonicalQuery, List.filter_filter]
  simp

theorem rewritten_again {s : SplitResult} {port port' : Option ℕ} {name : List Char}
    (hname : hostOf U (rewritten U s port) = name)
    (hnetloc : netlocOf name port' = netlocOf (hostOf U s) port) :
    rewritten U (rewritten U s port) port' = rewritten U s port := by
  have hpath : (rewritten U s port).path ≠ [] := by
    simp only [rewritten]
    split_ifs with hempty
    · exact List.cons_ne_nil _ _
    · exact hempty
  have hquery : canonicalQuery U (rewritten U s port).query = canonicalQuery U s.query :=
    canonicalQuery_again _
  conv_lhs => rw [rewritten]
  rw [hname, hnetloc, if_neg hpath, hquery]
  rfl

theorem netlocOf_of_canonicalOf {s : SplitResult} {port port' : Option ℕ}
    (h : canonicalOf U (rewritten U s port) port' = canonicalOf U s port) :
    netlocOf (hostOf U (rewritten U s port)) port' = netlocOf (hostOf U s) port := by
  have hpath : (rewritten U (rewritten U s port) port').path = (rewritten U s port).path := by
    simp only [rewritten]
    split_ifs <;> simp_all
  have hquery : (rewritten U (rewritten U s port) port').query = (rewritten U s port).query :=
    congrArg urlencode (canonicalQuery_again _)
  simp only [canonicalOf, hpath, hquery, urlunsplit] at h
  have hfront := List.append_cancel_right (List.append_cancel_right h)
  change (rewritten U (rewritten U s port) port').netloc = (rewritten U s port).netloc
  simpa using hfront

theorem pathParts_rewritten (s : SplitResult) (port : Option ℕ) :
    pathParts (rewritten U s port).path = pathParts s.path := by
  simp only [rewritten]
  split_ifs with hempty
  · rw [hempty]
    decide
  · rfl

theorem genericMediaId_path {platform : String} {path path' : List Char}
    (h : pathParts path = pathParts path') (query : Query) (canonical : List Char) :
    genericMediaId hexdigest platform path query canonical =
      genericMediaId hexdigest platform path' query canonical := by
  simp only [genericMediaId, h]

/-- The host of the URL, or its first part, is read from the canonical URL and belongs to the same
platform. -/
def KeepsHost (U : Unicode) (url : List Char) : Prop :=
  ∀ s port, urlsplit U url = some s → s.port = some port →
    ∃ name, Survives U s port name ∧ platformForHost name = platformForHost (hostOf U s)

theorem fromUrl_outside (h : ∀ s, urlsplit U url = some s → hostOf U s ∉ youtubeHosts) :
    ∃ message, fromUrl U o url = .error (.unsupported message) := by
  unfold fromUrl parseMediaUrl
  cases hvideo : parseVideo U url with
  | ok found =>
    obtain ⟨mediaId, query⟩ := found
    cases hsplit : urlsplit U url with
    | none => simp [parseVideo, hsplit] at hvideo
    | some s => exact absurd ((parseVideo_ok hvideo).2 s hsplit) (h s hsplit)
  | error e =>
    cases e with
    | unsupported message => exact ⟨message, rfl⟩
    | valueError => exact absurd hvideo (parseVideo_not_valueError U url)

theorem Survives.hostname {s : SplitResult} {port : Option ℕ} {name : List Char}
    (haccepted : Accepted U url s port) (houtside : Outside U s port)
    (h : Survives U s port name) : (rewritten U s port).hostname U = some name := by
  have hpair := rewritten_hostAndPort haccepted.credentials
    (bracketsValid_of_urlsplit haccepted.split) (haccepted.split_canonical houtside.split).2
  have hname : name <:+: hostOf U s ∧ name ≠ [] ∧
      (cut ':' (rewritten U s port).netloc).1 = name := by
    rcases h with ⟨hcolon, rfl⟩ | ⟨rfl, p, -, hsplit, hcolon, hne, -⟩
    · refine ⟨List.infix_rfl, haccepted.host, ?_⟩
      cases port with
      | none => exact congrArg Prod.fst (cut_of_not_mem hcolon)
      | some p => exact congrArg Prod.fst (cut_append hcolon _)
    · refine ⟨⟨[], ':' :: Nat.toDigits 10 p, by simp [hsplit]⟩, hne, ?_⟩
      change (cut ':' (hostOf U s)).1 = name
      rw [hsplit]
      exact congrArg Prod.fst (cut_append hcolon _)
  obtain ⟨hpart, hne, hcut⟩ := hname
  have hhost : (rewritten U s port).hostAndPort.1 = name := by rw [hpair, ← hcut]
  rw [← hhost] at hpart hne ⊢
  exact SplitResult.hostname_of_lowered
    (fun t ht => lower_of_infix_hostOf (ht.trans hpart)) hne

theorem generic_again {s : SplitResult} {port : Option ℕ} (haccepted : Accepted U url s port)
    (houtside : Outside U s port) (hr : r = genericRequest U hexdigest o s port) :
    buildWithInterval U hexdigest (o.again r) r.canonicalUrl = .ok r ↔
      ∃ name, Survives U s port name ∧ platformForHost name = platformForHost (hostOf U s) := by
  have hsurvives := survives_iff haccepted.port haccepted.credentials
    (bracketsValid_of_urlsplit haccepted.split) (haccepted.split_canonical houtside.split).2
    haccepted.host
  have hurl : r.canonicalUrl = canonicalOf U s port := by rw [hr]; rfl
  have hplatform : r.platform = platformForHost (hostOf U s) := by rw [hr]; rfl
  rw [hurl, build_ok]
  constructor
  · rintro (hvideo | ⟨-, s', port', haccepted', houtside', hagain⟩)
    · obtain ⟨mediaId, query, clip, -, hr'⟩ := fromUrl_ok hvideo
      rw [hr'] at hplatform
      exact absurd hplatform.symm (platformForHost_ne _)
    · obtain rfl : rewritten U s port = s' :=
        Option.some.inj (houtside.split.symm.trans haccepted'.split)
      have hcanonical : canonicalOf U (rewritten U s port) port' = canonicalOf U s port := by
        rw [← hurl, hagain]
        rfl
      have hnetloc : netlocOf (hostOf U (rewritten U s port)) port' = netlocOf (hostOf U s) port :=
        netlocOf_of_canonicalOf hcanonical
      refine ⟨_, (hsurvives _).mp ⟨port', haccepted'.port, rfl, haccepted'.host, hnetloc⟩, ?_⟩
      rw [← hplatform, hagain]
      rfl
  · rintro ⟨name, hname, hsame⟩
    obtain ⟨port', hport', hhost', hne, hnetloc⟩ := (hsurvives name).mpr hname
    have hrewritten := rewritten_again hhost' hnetloc
    have hcanonical : canonicalOf U (rewritten U s port) port' = canonicalOf U s port := by
      rw [canonicalOf, hrewritten, canonicalOf]
    have hoff : name ∉ youtubeHosts := houtside.host name (hname.hostname haccepted houtside)
    refine .inr ⟨?_, rewritten U s port, port', ?_, ?_, ?_⟩
    · refine fromUrl_outside fun s' hs' => ?_
      obtain rfl := Option.some.inj (houtside.split.symm.trans hs')
      rwa [hhost']
    · refine ⟨houtside.split, hport', List.mem_cons_of_mem _ List.mem_cons_self, ?_, ?_⟩
      · rwa [hhost']
      · exact not_mem_rewritten haccepted.credentials (by decide) (by decide) (by decide) (by decide)
    · refine ⟨by rw [hcanonical, hrewritten, houtside.split], ?_⟩
      rw [hrewritten]
      exact houtside.host
    · have hquery : canonicalQuery U (rewritten U s port).query = canonicalQuery U s.query :=
        canonicalQuery_again _
      rw [genericRequest, hhost', hsame, hcanonical, hquery,
        genericMediaId_path (pathParts_rewritten s port), hr]
      rfl

/-- A request is built once more from its canonical URL exactly where the host is kept. -/
theorem build_again (h : buildWithInterval U hexdigest o url = .ok r) :
    buildWithInterval U hexdigest (o.again r) r.canonicalUrl = .ok r ↔ KeepsHost U url := by
  rcases build_ok.mp h with hvideo | ⟨-, s, port, haccepted, houtside, hr⟩
  · have hkeeps : KeepsHost U url := by
      intro s port hsplit _
      obtain ⟨mediaId, query, clip, hparse, -⟩ := fromUrl_ok hvideo
      have hcolon : youtubeHosts.all (fun host => !host.contains ':') = true := by decide
      have hhost := List.all_eq_true.mp hcolon _ ((parseVideo_ok hparse).2 s hsplit)
      exact ⟨_, .inl ⟨by simpa using hhost, rfl⟩, rfl⟩
    simp [hkeeps, build_ok, fromUrl_again hvideo]
  · rw [generic_again haccepted houtside hr]
    constructor
    · intro hkept s' port' hsplit hport
      obtain rfl := Option.some.inj (haccepted.split.symm.trans hsplit)
      obtain rfl := Option.some.inj (haccepted.port.symm.trans hport)
      exact hkept
    · exact fun hkeeps => hkeeps s port haccepted.split haccepted.port

end Generic

section Tracking

variable (U : Unicode)

/-- The fields of a query, as they are read. -/
def fields (query : List Char) : List (List Char) :=
  ((query.filter fun c => !isDropped c).splitOn '&').filter (· ≠ [])

/-- The field gives a parameter that tracks. -/
def IsTrackingField (field : List Char) : Prop := isTracking U (unquotePlus (cut '=' field).1) = true

/-- Fields with some more that track, at any places among them. -/
inductive Inserted : List (List Char) → List (List Char) → Prop where
  | nil : Inserted [] []
  | keep (field : List Char) {before after : List (List Char)} :
    Inserted before after → Inserted (field :: before) (field :: after)
  | insert {field : List Char} {before after : List (List Char)} :
    IsTrackingField U field → Inserted before after → Inserted before (field :: after)

variable {U} {o : Options} {hexdigest : List Char → List Char}

theorem parseQsl_eq (query : List Char) :
    parseQsl true (query.filter fun c => !isDropped c) = (fields query).map fun field =>
      (unquotePlus (cut '=' field).1, unquotePlus ((cut '=' field).2.getD [])) := by
  simp [parseQsl, fields]

theorem canonicalQuery_inserted {before after : List (List Char)} (h : Inserted U before after) :
    (after.map fun field => (unquotePlus (cut '=' field).1,
      unquotePlus ((cut '=' field).2.getD []))).filter (fun item => !isTracking U item.1) =
    (before.map fun field => (unquotePlus (cut '=' field).1,
      unquotePlus ((cut '=' field).2.getD []))).filter fun item => !isTracking U item.1 := by
  induction h with
  | nil => rfl
  | keep field _ ih => rw [List.map_cons, List.map_cons, List.filter_cons, List.filter_cons, ih]
  | insert hfield _ ih =>
    have hfield : isTracking U (unquotePlus (cut '=' _).1) = true := hfield
    rw [List.map_cons, List.filter_cons]
    simp [hfield, ih]

theorem canonicalQuery_fields {query query' : List Char}
    (h : Inserted U (fields query) (fields query')) :
    canonicalQuery U (query'.filter fun c => !isDropped c) =
      canonicalQuery U (query.filter fun c => !isDropped c) := by
  rw [canonicalQuery, canonicalQuery, parseQsl_eq, parseQsl_eq]
  exact canonicalQuery_inserted h

theorem parseVideo_outside {url : List Char} {s : SplitResult} (hsplit : urlsplit U url = some s)
    (houtside : hostOf U s ∉ youtubeHosts) : parseVideo U url = .error (.unsupported
      (if s.port = none then "malformed media URL"
      else if s.scheme ∉ ["http".toList, "https".toList] ∨ s.hostname U = none then
        "media URL must use HTTP(S) and include a host"
      else "unsupported or malformed YouTube media URL")) := by
  obtain ⟨hwatch, hshort⟩ := not_or.mp (List.mem_append.not.mp houtside)
  have hvideo : ∀ query, videoOf (stripDots (U.lower ((s.hostname U).getD []))) s.path query = none := by
    intro query
    have hshort : stripDots (U.lower ((s.hostname U).getD [])) ≠ "youtu.be".toList := fun h =>
      hshort (List.mem_singleton.mpr h)
    simp only [videoOf, hshort, if_false]
    exact if_neg hwatch
  simp only [parseVideo, hsplit]
  cases hport : s.port with
  | none => simp
  | some port =>
    simp only [hvideo, reduceCtorEq, if_false]
    split_ifs <;> rfl

theorem fromUrl_error {url : List Char} {e : UrlError} (h : parseVideo U url = .error e) :
    fromUrl U o url = .error e := by
  simp [fromUrl, parseMediaUrl, h, bind, Except.bind]

/-- Parameters that track may be inserted at any places of a URL outside YouTube. -/
theorem build_tracking {front tail : List Char} {query query' : Option (List Char)}
    (hfront : '?' ∉ front ∧ '#' ∉ front) (hquery : ∀ q ∈ query, '#' ∉ q)
    (hquery' : ∀ q ∈ query', '#' ∉ q) (htail : ∀ c ∈ tail.head?, c = '#')
    (hinserted : Inserted U (fields (query.getD [])) (fields (query'.getD [])))
    (houtside : ∀ s, urlsplit U (withQuery front query tail) = some s →
      hostOf U s ∉ youtubeHosts) :
    buildWithInterval U hexdigest o (withQuery front query' tail) =
      buildWithInterval U hexdigest o (withQuery front query tail) := by
  have hsplit := urlsplit_withQuery (U := U) query hfront hquery htail
  have hsplit' := urlsplit_withQuery (U := U) query' hfront hquery' htail
  have hkept := canonicalQuery_fields hinserted
  cases hbase : urlsplit U (front ++ tail) with
  | none =>
    simp only [hbase, Option.map_none] at hsplit hsplit'
    have hvideo : ∀ url, urlsplit U url = none →
        fromUrl U o url = .error (.unsupported "malformed media URL") ∧
          canonicalizeGenericUrl U hexdigest url =
            .error (.unsupported "malformed media URL") := by
      intro url hurl
      exact ⟨fromUrl_error (by simp [parseVideo, hurl]), by simp [canonicalizeGenericUrl, hurl]⟩
    simp only [buildWithInterval, hvideo _ hsplit, hvideo _ hsplit']
  | some s =>
    simp only [hbase, Option.map_some] at hsplit hsplit'
    have hhost := houtside _ hsplit
    have hvideo := fromUrl_error (o := o) (parseVideo_outside hsplit hhost)
    have hvideo' := fromUrl_error (o := o) (parseVideo_outside hsplit' hhost)
    have hcanonical : canonicalizeGenericUrl U hexdigest (withQuery front query' tail) =
        canonicalizeGenericUrl U hexdigest (withQuery front query tail) := by
      simp only [canonicalizeGenericUrl, hsplit, hsplit', hkept]
      rfl
    simp only [buildWithInterval, hvideo, hvideo', hcanonical]
    rfl

end Tracking

/-- A request is built once more from its own URL, clip and variant exactly where the canonical URL
names the host again. Outside YouTube, parameters that track change nothing. -/
theorem canonicalization_stable (U : Unicode) (hexdigest : List Char → List Char) :
    (∀ o clip url r, buildMediaRequest U hexdigest o clip url = .ok r →
      (buildMediaRequest U hexdigest { o with outputVariant := r.outputVariant } (.interval r.clip)
        r.canonicalUrl = .ok r ↔ KeepsHost U url)) ∧
    ∀ o clip front tail query query', '?' ∉ front ∧ '#' ∉ front → (∀ q ∈ query, '#' ∉ q) →
      (∀ q ∈ query', '#' ∉ q) → (∀ c ∈ List.head? tail, c = '#') →
      Inserted U (fields (query.getD [])) (fields (query'.getD [])) →
      (∀ s, urlsplit U (withQuery front query tail) = some s → hostOf U s ∉ youtubeHosts) →
      buildMediaRequest U hexdigest o clip (withQuery front query' tail) =
        buildMediaRequest U hexdigest o clip (withQuery front query tail) := by
  constructor
  · intro o clip url r h
    cases hclip : parseClipArgument clip with
    | error e => simp [buildMediaRequest, hclip, bind, Except.bind] at h
    | ok interval =>
      simp only [buildMediaRequest, hclip, bind, Except.bind] at h
      have hagain := build_again h
      exact hagain
  · intro o clip front tail query query' hfront hquery hquery' htail hinserted houtside
    unfold buildMediaRequest
    cases parseClipArgument clip with
    | error e => rfl
    | ok interval => exact build_tracking hfront hquery hquery' htail hinserted houtside

/-- A host with a port, and a parameter that tracks before one that does not. -/
theorem canonicalization_stable_port :
    (buildMediaRequest .ascii (fun _ => []) .defaults .none "https://a.example:8080/x".toList =
      .ok (Options.defaults.request "https://a.example:8080/x".toList "other" ['x'] .empty none) ∧
    KeepsHost .ascii "https://a.example:8080/x".toList) ∧
    buildMediaRequest .ascii (fun _ => []) .defaults .none
      (withQuery "https://a.example/x".toList (some "utm_source=b&v=1".toList) []) =
    buildMediaRequest .ascii (fun _ => []) .defaults .none
      (withQuery "https://a.example/x".toList (some "v=1".toList) []) := by
  have h := canonicalization_stable .ascii fun _ => []
  have hbuilt : buildMediaRequest .ascii (fun _ => []) .defaults .none
      "https://a.example:8080/x".toList =
      .ok (Options.defaults.request "https://a.example:8080/x".toList "other" ['x'] .empty none) := by
    decide +kernel
  have hagain : buildMediaRequest .ascii (fun _ => []) .defaults (.interval .empty)
      "https://a.example:8080/x".toList =
      .ok (Options.defaults.request "https://a.example:8080/x".toList "other" ['x'] .empty none) := by
    decide +kernel
  refine ⟨⟨hbuilt, (h.1 _ _ _ _ hbuilt).mp hagain⟩, ?_⟩
  have hfields : fields "v=1".toList = ["v=1".toList] ∧
      fields "utm_source=b&v=1".toList = ["utm_source=b".toList, "v=1".toList] := by
    decide +kernel
  refine h.2 _ _ _ _ _ _ (by decide) ?_ ?_ (by simp) ?_ ?_
  · simp
  · simp
  · rw [Option.getD_some, Option.getD_some, hfields.1, hfields.2]
    exact .insert (by unfold IsTrackingField; decide +kernel) (.keep _ .nil)
  · have hsplit : (urlsplit .ascii (withQuery "https://a.example/x".toList (some "v=1".toList)
        [])).all (fun s => hostOf .ascii s ∉ youtubeHosts) = true := by
      decide +kernel
    intro s hs
    rw [hs] at hsplit
    simpa using hsplit

/-- The brackets of an address are lost. -/
theorem canonical_url_loses_brackets :
    ¬ ∀ (U : Unicode) (hexdigest : List Char → List Char) (o : Options) (clip : ClipArgument)
      (url : List Char) (r : MediaRequest), buildMediaRequest U hexdigest o clip url = .ok r →
      buildMediaRequest U hexdigest { o with outputVariant := r.outputVariant } (.interval r.clip)
        r.canonicalUrl = .ok r := by
  intro h
  have hbuilt : buildMediaRequest .ascii (fun _ => []) .defaults .none
      "http://[::1]:8080/x".toList =
      .ok (Options.defaults.request "https://::1:8080/x".toList "other" ['x'] .empty none) := by
    decide +kernel
  have hrefused : buildMediaRequest .ascii (fun _ => []) .defaults (.interval .empty)
      "https://::1:8080/x".toList = .error (.unsupported "malformed media URL") := by
    decide +kernel
  have hagain := h _ _ _ _ _ _ hbuilt
  change buildMediaRequest .ascii (fun _ => []) .defaults (.interval .empty)
    "https://::1:8080/x".toList = _ at hagain
  rw [hrefused] at hagain
  cases hagain

end YtdlBot.Media.Requests
