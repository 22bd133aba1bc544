import Mathlib.Data.Finset.Card
import Mathlib.Data.Prod.Lex
import YtdlBot.Framework.Termination
import YtdlBot.Materialization.Ownership

/-!
# Reserves

Every new resolution is of providers that were not attempted before, but for one early re-resolve,
and within a resolution every rejected artifact takes its candidate away. So the loop ends.
-/

namespace YtdlBot.Materialization.Fallback

open Framework
open Media (MediaCandidate MediaItem materializationCandidates)

section Keys

variable {τ : Type}

def keys (candidates : List (MediaCandidate τ)) : List Key := candidates.map key

/-- No candidate of a rejected artifact is among these. -/
def Unrejected {κ : Type} (history : List (Event κ)) (offered : List κ) : Prop :=
  ∀ k ∈ offered, .rejected k ∉ history

/-- A later event does not offer what an earlier one has rejected. -/
def NotAgain {κ : Type} (earlier later : Event κ) : Prop :=
  ∀ k offered, earlier = .rejected k → later = .offered offered → k ∉ offered

theorem keys_materializationCandidates {candidates result : List (MediaCandidate τ)}
    (h : materializationCandidates candidates = .ok result) : keys result = keys candidates := by
  unfold materializationCandidates at h
  split_ifs at h
  obtain rfl := Except.ok.inj h
  simp only [keys, List.map_map]
  refine List.map_congr_left fun candidate _ => ?_
  simp only [Function.comp_apply, key, Media.normalized]
  split <;> rfl

theorem pairwise_offered {κ : Type} {history : List (Event κ)} {offered : List κ}
    (h : history.Pairwise NotAgain) (hnew : Unrejected history offered) :
    (history ++ [Event.offered offered]).Pairwise NotAgain := by
  refine List.pairwise_append.mpr ⟨h, List.pairwise_singleton _ _, ?_⟩
  intro event hevent last hlast k found hk hfound
  obtain rfl := List.mem_singleton.mp hlast
  obtain rfl := Event.offered.inj hfound
  intro hmem
  exact hnew k hmem (hk ▸ hevent)

theorem pairwise_rejected {κ : Type} {history : List (Event κ)} {k : κ}
    (h : history.Pairwise NotAgain) : (history ++ [Event.rejected k]).Pairwise NotAgain := by
  refine List.pairwise_append.mpr ⟨h, List.pairwise_singleton _ _, ?_⟩
  intro event hevent last hlast k' found hk hfound
  obtain rfl := List.mem_singleton.mp hlast
  cases hfound

end Keys

/-- What the loop has attempted covers its candidates, its reserves and what it has rejected. -/
structure Covered {τ : Type} (c : Settings) (candidates : List (MediaCandidate τ))
    (attempted : List String) (reserves refetched : List (Option String)) (retried prefetch : Bool)
    (history : List (Event Key)) : Prop where
  candidate : ∀ candidate ∈ candidates, ∀ name ∈ candidate.provider, name ∈ attempted
  nodup : reserves.Nodup
  reserve : ∀ provider ∈ reserves, ∃ name ∈ attempted, provider = some name
  once : refetched.length + prefetch.toNat ≤ retried.toNat
  tiktok : retried = true → c.request.platform = "tiktok"
  rejected : ∀ k, .rejected k ∈ history → ∀ name ∈ k.1, name ∈ attempted
  ordered : c.request.platform ≠ "tiktok" → history.Pairwise NotAgain

namespace State

variable {τ : Type} {c : Settings} {s s' : State τ} {item : MaterializedItem τ} {error : Error}

abbrev Covered (c : Settings) (s : State τ) : Prop :=
  Materialization.Fallback.Covered c s.selected.candidates s.attempted s.reserves s.refetched s.retriedTiktokCheap
    s.cheapPrefetch s.history

/-- What is on offer, by phase. -/
def Offering (c : Settings) (s : State τ) : Prop :=
  match s.phase with
  | .resolving | .racing => s.history = [] ∧ s.reserves = [] ∧ s.refetched = [] ∧
      s.retriedTiktokCheap = false ∧ s.cheapPrefetch = false
  | .materializing candidates => keys candidates = keys s.selected.candidates ∧ s.completed = none ∧
      (c.request.platform ≠ "tiktok" → Unrejected s.history (keys s.selected.candidates))
  | .validating item => s.completed = some item ∧
      key item.candidate ∈ keys s.selected.candidates ∧
      (c.request.platform ≠ "tiktok" → Unrejected s.history (keys s.selected.candidates))
  | .releasing item error => s.completed = some item ∧
      key item.candidate ∈ keys s.selected.candidates ∧
      (c.request.platform ≠ "tiktok" → ∀ k ∈ keys s.selected.candidates, .rejected k ∈ s.history →
        k = key item.candidate ∧ error.kind = .artifactValidation)
  | .awaitingPrefetch _ => s.cheapPrefetch = true
  | _ => True

/-- The invariant of the loop. -/
structure Inv (c : Settings) (s : State τ) : Prop where
  covered : s.Covered c
  offering : s.Offering c

theorem inv_leave (h : s.Covered c) (outcome : Except Error (MaterializedItem τ)) :
    (s.leave outcome).Inv c := by
  unfold leave
  split
  · exact ⟨h, trivial⟩
  · cases outcome with
    | ok item => exact ⟨h, trivial⟩
    | error error => exact ⟨h, trivial⟩

theorem covered_startPrefetch (h : s.Covered c) : (s.startPrefetch c).Covered c := by
  unfold startPrefetch
  split
  next hcheap =>
    simp only [Bool.and_eq_true, Bool.not_eq_true', decide_eq_true_eq] at hcheap
    have hlength := h.once
    rw [hcheap.1.1] at hlength
    refine ⟨h.candidate, h.nodup, h.reserve, ?_, fun _ => hcheap.1.2, h.rejected, h.ordered⟩
    simp only [Bool.toNat_true, Bool.toNat_false] at hlength ⊢
    omega
  · exact h

theorem inv_iterate (h : s.Covered c)
    (hnew : c.request.platform ≠ "tiktok" → Unrejected s.history (keys s.selected.candidates)) :
    (s.iterate c).Inv c := by
  have hcovered := covered_startPrefetch h
  obtain ⟨retried, prefetch, hstart⟩ := startPrefetch_eq (c := c) (s := s)
  unfold iterate
  rw [hstart] at hcovered ⊢
  dsimp only
  cases hcandidates : materializationCandidates s.selected.candidates with
  | error error => exact inv_leave hcovered _
  | ok candidates =>
    have hkeys := keys_materializationCandidates hcandidates
    have hrejected : ∀ k, .rejected k ∈ s.history ++ [.offered (keys candidates)] →
        .rejected k ∈ s.history := by
      intro k hk
      rcases List.mem_append.mp hk with hk | hk
      · exact hk
      · cases List.mem_singleton.mp hk
    refine ⟨⟨hcovered.candidate, hcovered.nodup, hcovered.reserve, hcovered.once,
      hcovered.tiktok, fun k hk => hcovered.rejected k (hrejected k hk), ?_⟩, hkeys, rfl, ?_⟩
    · intro hplatform
      have hoffered : Unrejected s.history (keys candidates) := by
        rw [hkeys]
        exact hnew hplatform
      exact pairwise_offered (hcovered.ordered hplatform) hoffered
    · intro hplatform k hk hmem
      exact hnew hplatform k hk (hrejected k hmem)

theorem inv_fallBack (h : s.Covered c) : (s.fallBack error).Inv c := by
  unfold fallBack
  split
  next hprefetch =>
    simp only [Bool.and_eq_true] at hprefetch
    exact ⟨h, hprefetch.1⟩
  · exact ⟨h, trivial⟩

/-- The loop moves on to fresh providers: what they offer has not been rejected. -/
theorem inv_takeReserve {names : List String} {reserve : ResolvedMedia τ}
    {earlier : List (Option String)}
    (h : Materialization.Fallback.Covered c s.selected.candidates s.attempted earlier s.refetched
      s.retriedTiktokCheap s.cheapPrefetch s.history)
    (hnodup : s.reserves.Nodup)
    (hreserves : ∀ provider ∈ s.reserves, provider ∈ earlier ∨ provider = reserve.provider)
    (hreserve : Reserve names reserve)
    (hnew : c.request.platform ≠ "tiktok" → ∀ name ∈ names, name ∉ s.attempted) :
    (s.takeReserve c reserve).Inv c := by
  obtain ⟨⟨winner, hwinner, hprovider⟩, hnames, -, hcandidates⟩ := hreserve
  refine inv_iterate ⟨?_, hnodup, ?_, h.once, h.tiktok, ?_, h.ordered⟩ ?_
  · intro candidate hcandidate name hname
    obtain ⟨found, hfound, heq⟩ := hcandidates candidate hcandidate
    obtain rfl := Option.some.inj (heq.symm.trans hname)
    exact List.mem_append_right _ hfound
  · intro provider hmem
    rcases hreserves provider hmem with hearlier | rfl
    · obtain ⟨name, hname, heq⟩ := h.reserve provider hearlier
      exact ⟨name, List.mem_append_left _ hname, heq⟩
    · exact ⟨winner, List.mem_append_right _ hwinner, hprovider⟩
  · intro k hk name hname
    exact List.mem_append_left _ (h.rejected k hk name hname)
  · intro hplatform k hk hrejected
    obtain ⟨candidate, hcandidate, rfl⟩ := List.mem_map.mp hk
    obtain ⟨name, hname, heq⟩ := hcandidates candidate hcandidate
    exact hnew hplatform name (hnames name hname) (h.rejected _ hrejected name heq)

theorem inv_handle (h : s.Inv c) (hphase : s.phase.handles error) : (s.handle c error).Inv c := by
  have hcovered := h.covered
  have hoffering := h.offering
  unfold handle
  dsimp only
  cases hcompleted : s.completed with
  | none => exact inv_fallBack hcovered
  | some item =>
    dsimp only
    split_ifs with hshort
    · cases hremaining : s.selected.candidates.filter fun candidate =>
          key candidate ≠ key item.candidate with
      | nil => exact inv_fallBack hcovered
      | cons next rest =>
        have hmem : ∀ candidate ∈ next :: rest, candidate ∈ s.selected.candidates ∧
            key candidate ≠ key item.candidate := by
          intro candidate hcandidate
          rw [← hremaining] at hcandidate
          simpa using hcandidate
        refine inv_iterate ⟨fun candidate hcandidate =>
          hcovered.candidate candidate (hmem candidate hcandidate).1, hcovered.nodup,
          hcovered.reserve, hcovered.once, hcovered.tiktok, hcovered.rejected, hcovered.ordered⟩ ?_
        intro hplatform k hk hrejected
        obtain ⟨candidate, hcandidate, rfl⟩ := List.mem_map.mp hk
        obtain ⟨hselected, hother⟩ := hmem candidate hcandidate
        unfold Offering at hoffering
        cases hp : s.phase with
        | materializing candidates =>
          rw [hp, hcompleted] at hoffering
          cases hoffering.2.1
        | releasing found rejected =>
          rw [hp] at hoffering
          obtain ⟨hfound, -, honly⟩ := hoffering
          obtain rfl := Option.some.inj (hfound.symm.trans hcompleted)
          exact hother (honly hplatform _ (List.mem_map_of_mem hselected) hrejected).1
        | _ =>
          rw [hp] at hphase
          exact hphase
    · exact inv_fallBack hcovered

theorem inv_begin (hhistory : s.history = []) (hreserves : s.reserves = [])
    (hrefetched : s.refetched = []) (hretried : s.retriedTiktokCheap = false)
    (hprefetch : s.cheapPrefetch = false) (selected : ResolvedMedia τ) :
    (s.begin c selected).Inv c := by
  refine inv_iterate ⟨?_, ?_, ?_, ?_, ?_, ?_, ?_⟩ ?_
  · intro candidate hcandidate name hname
    refine List.mem_append_left _ (List.mem_filterMap.mpr ⟨candidate, hcandidate, hname⟩)
  · simp [hreserves]
  · simp [hreserves]
  · simp [hrefetched, hprefetch]
  · simp [hretried]
  · simp [hhistory]
  · simp [hhistory]
  · simp [Unrejected, hhistory]

theorem inv_initial (resolved : Option (ResolvedMedia τ)) : (initial c resolved).Inv c := by
  have hcovered : (blank : State τ).Covered c := by
    constructor <;> simp [blank]
  unfold initial
  cases resolved with
  | some selected => exact inv_begin rfl rfl rfl rfl rfl selected
  | none =>
    dsimp only
    split
    · exact ⟨hcovered, rfl, rfl, rfl, rfl, rfl⟩
    · exact ⟨hcovered, rfl, rfl, rfl, rfl, rfl⟩

theorem covered_attempted (names : List String) (prefetch : Bool) (h : s.Covered c)
    (hprefetch : prefetch.toNat ≤ s.cheapPrefetch.toNat) :
    Materialization.Fallback.Covered c s.selected.candidates (s.attempted ++ names) s.reserves
      s.refetched s.retriedTiktokCheap prefetch s.history := by
  refine ⟨?_, h.nodup, ?_, ?_, h.tiktok, ?_, h.ordered⟩
  · intro candidate hcandidate name hname
    exact List.mem_append_left _ (h.candidate candidate hcandidate name hname)
  · intro provider hprovider
    obtain ⟨name, hname, heq⟩ := h.reserve provider hprovider
    exact ⟨name, List.mem_append_left _ hname, heq⟩
  · have := h.once
    omega
  · intro k hk name hname
    exact List.mem_append_left _ (h.rejected k hk name hname)

/-- A provider that has been a reserve is not looked at again. -/
theorem provider_fresh {available : List Route} {reserve : ResolvedMedia τ} (h : s.Covered c)
    (hreserve : Reserve (reserveRoutes available s.attempted) reserve) :
    reserve.provider ∉ s.reserves := by
  obtain ⟨⟨name, hname, heq⟩, hnames, -⟩ := hreserve
  intro hmem
  obtain ⟨found, hfound, hprovider⟩ := h.reserve _ hmem
  obtain rfl := Option.some.inj (heq.symm.trans hprovider)
  obtain ⟨route, hroute, rfl⟩ := List.mem_map.mp (hnames _ hname)
  simp [hfound] at hroute

theorem inv_note (h : s.Inv c) (hphase : s.phase = .validating item) (error : Error) :
    ((s.note item error).release item (.releasing item error)).Inv c := by
  have hcovered := h.covered
  have hoffering := h.offering
  rw [Offering, hphase] at hoffering
  obtain ⟨hcompleted, hkey, hnew⟩ := hoffering
  unfold note
  split
  next hkind =>
    refine ⟨⟨hcovered.candidate, hcovered.nodup, hcovered.reserve, hcovered.once, hcovered.tiktok,
      ?_, fun hplatform => pairwise_rejected (hcovered.ordered hplatform)⟩, hcompleted, hkey, ?_⟩
    · intro k hk name hname
      rcases List.mem_append.mp hk with hk | hk
      · exact hcovered.rejected k hk name hname
      · obtain rfl := Event.rejected.inj (List.mem_singleton.mp hk)
        obtain ⟨candidate, hcandidate, hsame⟩ := List.mem_map.mp hkey
        have hprovider : candidate.provider = item.candidate.provider := congrArg Prod.fst hsame
        exact hcovered.candidate candidate hcandidate name (hprovider ▸ hname)
    · intro hplatform k hk hrejected
      rcases List.mem_append.mp hrejected with hrejected | hrejected
      · exact absurd hrejected (hnew hplatform k hk)
      · exact ⟨Event.rejected.inj (List.mem_singleton.mp hrejected), hkind⟩
  · exact ⟨hcovered, hcompleted, hkey, fun hplatform k hk hrejected =>
      absurd hrejected (hnew hplatform k hk)⟩

theorem inv_move (h : s.Inv c) (hmove : Move c s s') : s'.Inv c := by
  have hcovered := h.covered
  have hoffering := h.offering
  cases hmove with
  | begin hphase selected =>
    rw [Offering, hphase] at hoffering
    obtain ⟨hhistory, hreserves, hrefetched, hretried, hprefetch⟩ := hoffering
    exact inv_begin hhistory hreserves hrefetched hretried hprefetch selected
  | raced hphase candidate => exact ⟨hcovered, trivial⟩
  | halted hphase error => exact ⟨hcovered, trivial⟩
  | @received candidates candidate hphase hkey =>
    rw [Offering, hphase] at hoffering
    obtain ⟨hkeys, -, hnew⟩ := hoffering
    exact ⟨hcovered, rfl, hkeys ▸ hkey, hnew⟩
  | left hphase error => exact inv_leave hcovered _
  | handled hphase => exact inv_handle h hphase
  | valid hphase => exact inv_leave (s := { s with completedValid := true }) hcovered _
  | rejected hphase error => exact inv_note h hphase error
  | prefetched hphase now => exact ⟨covered_attempted _ _ hcovered (Nat.zero_le _), trivial⟩
  | @refetched error available reserve hphase now havailable hreserve =>
    rw [Offering, hphase] at hoffering
    have hbase := covered_attempted (cheapRoutes now) false hcovered (Nat.zero_le _)
    have hlength := hcovered.once
    rw [hoffering] at hlength
    have hretried : s.retriedTiktokCheap = true := by
      cases hr : s.retriedTiktokCheap with
      | true => rfl
      | false => simp [hr] at hlength
    have honce : (s.refetched ++ [reserve.provider]).length + false.toNat ≤
        s.retriedTiktokCheap.toNat := by
      simp only [List.length_append, List.length_singleton, Bool.toNat_true, Bool.toNat_false]
        at hlength ⊢
      omega
    refine inv_takeReserve ⟨hbase.candidate, hbase.nodup, hbase.reserve, honce, hbase.tiktok,
      hbase.rejected, hbase.ordered⟩ hbase.nodup (fun _ => .inl) hreserve ?_
    intro hplatform
    exact absurd (hcovered.tiktok hretried) hplatform
  | @reserved error available reserve hphase havailable hreserve =>
    have hfresh := provider_fresh hcovered hreserve
    refine inv_takeReserve hcovered ?_ ?_ hreserve ?_
    · exact List.nodup_append.mpr ⟨hcovered.nodup, List.nodup_singleton _,
        fun provider hprovider last hlast heq =>
          hfresh (List.mem_singleton.mp hlast ▸ heq ▸ hprovider)⟩
    · intro provider hprovider
      exact (List.mem_append.mp hprovider).imp_right List.mem_singleton.mp
    · intro _ name hname
      obtain ⟨route, hroute, rfl⟩ := List.mem_map.mp hname
      simpa using (List.mem_filter.mp hroute).2
  | interrupted hphase hvalid hcompleted => exact ⟨hcovered, trivial⟩
  | abandoned hphase hnothing => exact ⟨hcovered, trivial⟩
  | @joined outcome hphase =>
    cases outcome with
    | ok item => exact ⟨hcovered, trivial⟩
    | error error => exact ⟨hcovered, trivial⟩
  | stored hphase => exact ⟨hcovered, trivial⟩
  | discarded hphase error => exact ⟨hcovered, trivial⟩
  | published hphase cancelled => exact ⟨hcovered, trivial⟩
  | inVain hphase => exact ⟨hcovered, trivial⟩

section Rank

/-- Routes that have not been attempted yet. -/
def unattempted (c : Settings) (s : State τ) : Nat :=
  ((c.registry.map Route.name).toFinset.filter fun name => name ∉ s.attempted).card

/-- The early re-resolve is still to come. -/
def credit (s : State τ) : Nat := (!s.retriedTiktokCheap).toNat + s.cheapPrefetch.toNat

def weight : Phase τ → Nat
  | .resolving | .racing => 9
  | .materializing _ => 9
  | .validating _ => 8
  | .releasing _ _ => 7
  | .awaitingPrefetch _ => 6
  | .reserving _ => 5
  | .joining _ => 4
  | .storing _ => 3
  | .publishing _ => 2
  | .releasingValid _ | .discarding _ => 1
  | .ended _ => 0

def started (s : State τ) : Nat :=
  match s.phase with
  | .resolving | .racing => 1
  | _ => 0

/-- What a step decreases: first providers, then candidates, then what is left of the round. -/
def rank (c : Settings) (s : State τ) : ℕ ×ₗ ℕ ×ₗ ℕ ×ₗ ℕ :=
  toLex (s.started, toLex (s.unattempted c + s.credit,
    toLex (s.selected.candidates.length, weight s.phase)))

theorem rank_lt (h : s'.started < s.started ∨ s'.started = s.started ∧
    (s'.unattempted c + s'.credit < s.unattempted c + s.credit ∨
      s'.unattempted c + s'.credit = s.unattempted c + s.credit ∧
        (s'.selected.candidates.length < s.selected.candidates.length ∨
          s'.selected.candidates.length = s.selected.candidates.length ∧
            weight s'.phase < weight s.phase))) : s'.rank c < s.rank c := by
  simpa only [rank, Prod.Lex.toLex_lt_toLex] using h

theorem unattempted_le (names : List String) :
    ({ s with attempted := s.attempted ++ names }).unattempted c ≤ s.unattempted c := by
  refine Finset.card_le_card fun name hname => ?_
  simp only [Finset.mem_filter, List.mem_append, not_or] at hname ⊢
  exact ⟨hname.1, hname.2.1⟩

theorem unattempted_lt {available : List Route} {reserve : ResolvedMedia τ}
    (havailable : ∀ route ∈ available, route ∈ c.registry)
    (hreserve : Reserve (reserveRoutes available s.attempted) reserve) :
    ({ s with attempted := s.attempted ++ reserve.attemptedProviders }).unattempted c <
      s.unattempted c := by
  obtain ⟨⟨name, hname, -⟩, hnames, -⟩ := hreserve
  obtain ⟨route, hroute, hsame⟩ := List.mem_map.mp (hnames name hname)
  obtain ⟨hmem, hfresh⟩ := List.mem_filter.mp hroute
  refine Finset.card_lt_card (Finset.ssubset_iff_of_subset ?_ |>.mpr ⟨name, ?_, ?_⟩)
  · intro other hother
    simp only [Finset.mem_filter, List.mem_append, not_or] at hother ⊢
    exact ⟨hother.1, hother.2.1⟩
  · simp only [Finset.mem_filter, List.mem_toFinset]
    exact ⟨List.mem_map.mpr ⟨route, havailable route hmem, hsame⟩, hsame ▸ of_decide_eq_true hfresh⟩
  · simp [hname]

theorem credit_startPrefetch : (s.startPrefetch c).credit ≤ s.credit := by
  unfold startPrefetch
  split
  next hcheap =>
    simp only [Bool.and_eq_true, Bool.not_eq_true'] at hcheap
    simp [credit, hcheap.1.1]
  · exact le_refl _

/-- Bounds of the rank once the loop has started. -/
structure Onward (c : Settings) (providers candidates left : Nat) (s : State τ) : Prop where
  started : s.started = 0
  providers : s.unattempted c + s.credit ≤ providers
  candidates : s.selected.candidates.length = candidates
  left : weight s.phase ≤ left

abbrev providersLeft (c : Settings) (s : State τ) : Nat := s.unattempted c + s.credit

theorem onward_leave (outcome : Except Error (MaterializedItem τ)) :
    Onward c (s.providersLeft c) s.selected.candidates.length 4 (s.leave outcome) := by
  unfold leave
  split
  · exact ⟨rfl, le_refl _, rfl, le_refl _⟩
  · cases outcome with
    | ok item => exact ⟨rfl, le_refl _, rfl, by simp [conclude, weight]⟩
    | error error => exact ⟨rfl, le_refl _, rfl, by simp [conclude, ends, weight]⟩

theorem onward_iterate :
    Onward c (s.providersLeft c) s.selected.candidates.length 9 (s.iterate c) := by
  have hcredit := credit_startPrefetch (c := c) (s := s)
  obtain ⟨retried, prefetch, hstart⟩ := startPrefetch_eq (c := c) (s := s)
  unfold iterate
  rw [hstart] at hcredit ⊢
  dsimp only
  have hproviders := Nat.add_le_add_left hcredit (s.unattempted c)
  split
  next error herror =>
    have hleave := onward_leave (c := c)
      (s := { s with retriedTiktokCheap := retried, cheapPrefetch := prefetch })
      (.error ⟨.mediaResolution, error.text⟩)
    exact ⟨hleave.started, hleave.providers.trans hproviders, hleave.candidates,
      hleave.left.trans (by omega)⟩
  · exact ⟨rfl, hproviders, rfl, le_refl _⟩

theorem onward_fallBack :
    Onward c (s.providersLeft c) s.selected.candidates.length 6 (s.fallBack error) := by
  unfold fallBack
  split
  · exact ⟨rfl, le_refl _, rfl, le_refl _⟩
  · exact ⟨rfl, le_refl _, rfl, by simp [weight]⟩

theorem rank_of_onward {providers candidates left : Nat} (h : Onward c providers candidates left s')
    (hstarted : s.started = 0) (hless : providers < s.providersLeft c ∨
      providers = s.providersLeft c ∧ (candidates < s.selected.candidates.length ∨
        candidates = s.selected.candidates.length ∧ left < weight s.phase)) :
    s'.rank c < s.rank c := by
  have hstart := h.started
  have hproviders := h.providers
  have hcandidates := h.candidates
  have hweight := h.left
  apply rank_lt
  simp only [providersLeft] at hless
  omega

theorem rank_within {left : Nat}
    (h : Onward c (s.providersLeft c) s.selected.candidates.length left s')
    (hstarted : s.started = 0) (hleft : left < weight s.phase) : s'.rank c < s.rank c :=
  rank_of_onward h hstarted (.inr ⟨rfl, .inr ⟨rfl, hleft⟩⟩)

theorem weight_of_raises (hphase : s.phase.raises) : s.started = 0 ∧ 4 < weight s.phase := by
  unfold started
  cases hp : s.phase <;> rw [hp] at hphase <;>
    first | exact absurd hphase id | exact ⟨rfl, by simp [weight]⟩

theorem weight_of_handles (hphase : s.phase.handles error) : s.started = 0 ∧ 6 < weight s.phase := by
  unfold started
  cases hp : s.phase <;> rw [hp] at hphase <;>
    first | exact absurd hphase id | exact ⟨rfl, by simp [weight]⟩

theorem rank_handle (h : s.Inv c) (hphase : s.phase.handles error) :
    (s.handle c error).rank c < s.rank c := by
  obtain ⟨hstarted, hweight⟩ := weight_of_handles hphase
  have hoffering := h.offering
  have hfall : ∀ failures completed,
      ({ s with failures := failures, completed := completed }.fallBack error).rank c < s.rank c :=
    fun failures completed => rank_within
      (onward_fallBack (s := { s with failures := failures, completed := completed })) hstarted
      hweight
  unfold handle
  dsimp only
  cases hcompleted : s.completed with
  | none => exact hfall _ _
  | some item =>
    dsimp only
    split_ifs
    · have hkey : key item.candidate ∈ keys s.selected.candidates := by
        unfold Offering at hoffering
        cases hp : s.phase with
        | materializing candidates =>
          rw [hp, hcompleted] at hoffering
          cases hoffering.2.1
        | releasing found rejected =>
          rw [hp] at hoffering
          obtain ⟨hfound, hkey, -⟩ := hoffering
          obtain rfl := Option.some.inj (hfound.symm.trans hcompleted)
          exact hkey
        | _ =>
          rw [hp] at hphase
          exact absurd hphase id
      have hfewer : (s.selected.candidates.filter fun candidate =>
          key candidate ≠ key item.candidate).length < s.selected.candidates.length := by
        obtain ⟨candidate, hcandidate, hsame⟩ := List.mem_map.mp hkey
        exact List.length_filter_lt_length_iff_exists.mpr ⟨candidate, hcandidate, by simp [hsame]⟩
      cases hremaining : s.selected.candidates.filter fun candidate =>
          key candidate ≠ key item.candidate with
      | nil => exact hfall _ _
      | cons next rest =>
        rw [hremaining] at hfewer
        exact rank_of_onward onward_iterate hstarted (.inr ⟨rfl, .inl hfewer⟩)
    · exact hfall _ _

theorem rank_move (h : s.Inv c) (hmove : Move c s s') : s'.rank c < s.rank c := by
  have hoffering := h.offering
  cases hmove with
  | begin hphase selected =>
    have hstart := (onward_iterate (c := c) (s := { s with
      selected := selected
      attempted := selected.candidates.filterMap MediaCandidate.provider ++
        selected.attemptedProviders })).started
    have hstarted : s.started = 1 := by simp [started, hphase]
    apply rank_lt
    exact .inl (by rw [hstarted]; exact hstart ▸ Nat.zero_lt_one)
  | raced hphase candidate =>
    have hstarted : s.started = 1 := by simp [started, hphase]
    apply rank_lt
    exact .inl (by rw [hstarted]; exact Nat.zero_lt_one)
  | halted hphase error =>
    have hend : ∀ n, n = s.started → n = 1 ∨ (n = 0 ∧ weight s.phase = 1) := by
      rintro n rfl
      unfold started
      cases hp : s.phase <;> rw [hp] at hphase <;> first | exact absurd hphase id | simp [weight]
    apply rank_lt
    rcases hend _ rfl with hone | ⟨hzero, hweight⟩
    · exact .inl (by rw [hone]; exact Nat.zero_lt_one)
    · refine .inr ⟨hzero.symm ▸ rfl, .inr ⟨rfl, .inr ⟨rfl, ?_⟩⟩⟩
      rw [hweight]
      exact Nat.zero_lt_one
  | left hphase error =>
    obtain ⟨hstarted, hweight⟩ := weight_of_raises hphase
    exact rank_within (onward_leave _) hstarted hweight
  | handled hphase => exact rank_handle h hphase
  | valid hphase =>
    have hstarted : s.started = 0 := by simp [started, hphase]
    refine rank_within (onward_leave (s := { s with completedValid := true }) _) hstarted ?_
    simp [hphase, weight]
  | @rejected item hphase error =>
    have hnote : ∃ history, s.note item error = { s with history := history } := by
      unfold note
      split <;> exact ⟨_, rfl⟩
    obtain ⟨history, hnote⟩ := hnote
    rw [hnote]
    refine rank_within ⟨rfl, le_refl _, rfl, le_refl _⟩ (by simp [started, hphase]) ?_
    simp [hphase, weight, release]
  | @prefetched error hphase now =>
    rw [Offering, hphase] at hoffering
    have hproviders := unattempted_le (c := c) (s := s) (cheapRoutes now)
    apply rank_lt
    refine .inr ⟨by simp [started, hphase], .inl ?_⟩
    refine Nat.add_lt_add_of_le_of_lt hproviders ?_
    simp [credit, hoffering]
  | @refetched error available reserve hphase now havailable hreserve =>
    rw [Offering, hphase] at hoffering
    have hproviders := unattempted_le (c := c) (s := s)
      (cheapRoutes now ++ reserve.attemptedProviders)
    have hstarted : s.started = 0 := by simp [started, hphase]
    refine rank_of_onward onward_iterate hstarted (.inl ?_)
    rw [← List.append_assoc] at hproviders
    refine Nat.add_lt_add_of_le_of_lt hproviders ?_
    simp [credit, hoffering]
  | @reserved error available reserve hphase havailable hreserve =>
    have hproviders := unattempted_lt havailable hreserve
    have hstarted : s.started = 0 := by simp [started, hphase]
    refine rank_of_onward onward_iterate hstarted (.inl ?_)
    exact Nat.add_lt_add_right hproviders _
  | @joined outcome hphase =>
    have hstarted : s.started = 0 := by simp [started, hphase]
    cases outcome with
    | ok item =>
      refine rank_within ⟨rfl, le_refl _, rfl, le_refl _⟩ hstarted ?_
      simp [hphase, weight, conclude]
    | error error =>
      refine rank_within ⟨rfl, le_refl _, rfl, le_refl _⟩ hstarted ?_
      simp [hphase, weight, conclude, ends]
  | @discarded item hphase error =>
    rcases hphase with hphase | hphase
    · refine rank_within ⟨rfl, le_refl _, rfl, le_refl _⟩ (by simp [started, hphase]) ?_
      simp [hphase, weight, release]
    · refine rank_within ⟨rfl, le_refl _, rfl, le_refl _⟩ (by simp [started, hphase]) ?_
      simp [hphase, weight, release]
  | received hphase hkey =>
    refine rank_within ⟨rfl, le_refl _, rfl, le_refl _⟩ (by simp [started, hphase]) ?_
    simp [hphase, weight]
  | interrupted hphase hvalid hcompleted =>
    refine rank_within ⟨rfl, le_refl _, rfl, le_refl _⟩ (by simp [started, hphase]) ?_
    simp [hphase, weight, release]
  | abandoned hphase hnothing =>
    refine rank_within ⟨rfl, le_refl _, rfl, le_refl _⟩ (by simp [started, hphase]) ?_
    simp [hphase, weight, ends]
  | stored hphase =>
    refine rank_within ⟨rfl, le_refl _, rfl, le_refl _⟩ (by simp [started, hphase]) ?_
    simp [hphase, weight]
  | published hphase cancelled =>
    refine rank_within ⟨rfl, le_refl _, rfl, le_refl _⟩ (by simp [started, hphase]) ?_
    simp [hphase, weight, ends]
  | inVain hphase =>
    refine rank_within ⟨rfl, le_refl _, rfl, le_refl _⟩ (by simp [started, hphase]) ?_
    simp [hphase, weight, ends]

end Rank

end State

end YtdlBot.Materialization.Fallback
