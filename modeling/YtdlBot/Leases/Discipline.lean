import YtdlBot.Leases.Protocol

/-!
# The routines follow the protocol

Specifications of the lock, of the operations of a reservation on base names and of the janitor,
in the phases of `protocol`.
-/

namespace YtdlBot.Leases

open Framework
open Framework.Program (Protocol Follows)
open Framework.Routine (throw capture ofExcept get modify Meets meets_pure meets_throw meets_call
  meets_call_bind meets_ofExcept meets_get_bind meets_modify meets_modify_bind meets_ite)

namespace Know

/-- Between two critical sections, or inside those of `held`: no rename is left but onto `onto`. -/
structure At (g : Know) (role : Role) (held : List Hold) (onto : List Name) : Prop where
  role : g.role = role
  held : g.held = held
  onto : ∀ rename, g.promoting = some rename → rename.2 ∈ onto

/-- Nothing but the knowledge of file contents and the clock changes. -/
structure Stays (g g' : Know) : Prop where
  role : g'.role = g.role
  held : g'.held = g.held
  promoting : g'.promoting = g.promoting

/-- Of the sidecars only that of `target` may change. -/
structure Within (target : Name) (g g' : Know) : Prop extends Stays g g' where
  others : ∀ other content, other ≠ target → g'.maybe (.lease other) content →
    g.maybe (.lease other) content

theorem Within.refl (target : Name) (g : Know) : Within target g g :=
  ⟨⟨rfl, rfl, rfl⟩, fun _ _ _ h => h⟩

theorem Within.trans {target : Name} {g g' g'' : Know} (h : Within target g g')
    (h' : Within target g' g'') : Within target g g'' where
  role := h'.role.trans h.role
  held := h'.held.trans h.held
  promoting := h'.promoting.trans h.promoting
  others := fun other content hne hc => h.others other content hne (h'.others other content hne hc)

theorem Stays.holds {g g' : Know} (h : Stays g g') {target : Name} (ht : g.Holds target) :
    g'.Holds target := by
  unfold Holds
  rw [h.held]
  exact ht

theorem Stays.settled {g g' : Know} (h : Stays g g') {target : Name} (ht : g.Settled target) :
    g'.Settled target := by
  unfold Settled
  rw [h.promoting]
  exact ht

theorem Stays.at {g g' : Know} (h : Stays g g') {role : Role} {held : List Hold}
    {onto : List Name} (hg : g.At role held onto) : g'.At role held onto :=
  ⟨h.role.trans hg.role, h.held.trans hg.held, fun rename hr => hg.onto rename (h.promoting ▸ hr)⟩

theorem Within.leased {target other : Name} {g g' : Know} (h : Within target g g')
    (hne : other ≠ target) (hl : g.Leased other) : g'.Leased other :=
  fun content hc => hl content (h.others other content hne hc)

theorem at_initial (role : Role) : (initial role).At role [] [] :=
  ⟨rfl, rfl, fun _ hr => nomatch hr⟩

theorem At.mono {g : Know} {role : Role} {held : List Hold} {onto onto' : List Name}
    (h : g.At role held onto) (hsub : onto ⊆ onto') : g.At role held onto' :=
  ⟨h.role, h.held, fun rename hr => hsub (h.onto rename hr)⟩

theorem At.settled {g : Know} {role : Role} {held : List Hold} (h : g.At role held [])
    (target : Name) : g.Settled target :=
  fun _ hp => absurd (h.onto _ hp) List.not_mem_nil

theorem At.promoting {g : Know} {role : Role} {held : List Hold} (h : g.At role held []) :
    g.promoting = none := by
  cases hp : g.promoting with
  | none => rfl
  | some rename => exact absurd (h.onto rename hp) List.not_mem_nil

theorem At.holds {g : Know} {role : Role} {held : List Hold} {onto : List Name}
    (hg : g.At role held onto) {h : Hold} (hmem : h ∈ held) : g.Holds h.target :=
  ⟨h, hg.held ▸ hmem, rfl⟩

theorem At.drop {g : Know} {role : Role} {h : Hold} {hs : List Hold} {onto : List Name}
    (hg : g.At role (h :: hs) (h.target :: onto)) (hfree : ∀ x ∈ hs, x.target ≠ h.target) :
    (g.drop h.target).At role hs onto where
  role := hg.role
  held := by
    show g.held.filter _ = hs
    rw [hg.held, List.filter_cons_of_neg (by simp), List.filter_eq_self]
    intro x hx
    simp only [ne_eq, decide_eq_true_eq]
    exact hfree x hx
  onto := by
    intro rename hr
    obtain ⟨hp, hne⟩ := Option.filter_eq_some_iff.mp hr
    simp only [ne_eq, decide_eq_true_eq] at hne
    exact (List.mem_cons.mp (hg.onto rename hp)).resolve_left hne

end Know

section Lock

variable {σ : Type} {limit : Rat} {I : σ → Prop} {g : Know} {role : Role} {hs : List Hold}
  {onto : List Name} {target : Name} {token : Nat}

/-- How `acquire` ends: with the lock on top of the ones held before, or without it. -/
def Acquired (role : Role) (hs : List Hold) (onto : List Name) (target : Name) (token : Nat) :
    Except LeaseError Unit → Know → Prop
  | .ok (), g => ∃ h : Hold, h.target = target ∧ h.token = token ∧ g.At role (h :: hs) onto
  | .error _, g => g.At role hs onto

theorem meets_unlinkLock {h : Hold} (hg : g.At role (h :: hs) (target :: onto))
    (ht : h.target = target) (hfree : ∀ x ∈ hs, x.target ≠ target) :
    Meets (protocol limit) I g (unlinkMissingOk (σ := σ) (.lock target))
      fun _ g' => g'.At role hs onto := by
  subst ht
  have hdrop := hg.drop hfree
  apply meets_call_bind
  · exact .inl (hg.holds List.mem_cons_self)
  · rintro (_ | _ | _)
    · exact meets_pure ⟨hdrop.role, hdrop.held, hdrop.onto⟩
    · exact meets_pure ⟨hdrop.role, hdrop.held, hdrop.onto⟩
    · exact meets_throw ⟨hdrop.role, hdrop.held, hdrop.onto⟩

theorem meets_tryCreate {whenExists : Op σ Unit} (hg : g.At role hs onto)
    (hfree : ∀ x ∈ hs, x.target ≠ target)
    (hexists : Meets (protocol limit) I g whenExists (Acquired role hs onto target token)) :
    Meets (protocol limit) I g (tryCreate target token whenExists)
      (Acquired role hs onto target token) := by
  apply meets_call_bind
  · rintro ⟨x, hx, hxt⟩
    exact hfree x (hg.held ▸ hx) hxt
  rintro (⟨inode, since⟩ | _ | _)
  · -- The lock file is there: it has yet to be written.
    have htaken : (g.take ⟨target, inode, token, since⟩).At role
        (⟨target, inode, token, since⟩ :: hs) onto :=
      ⟨hg.role, congrArg _ hg.held, hg.onto⟩
    have hundo : Meets (protocol limit) I (g.take ⟨target, inode, token, since⟩)
        (unlinkMissingOk (σ := σ) (.lock target) >>= fun _ => throw .osError)
        (Acquired role hs onto target token) :=
      (meets_unlinkLock (htaken.mono (List.subset_cons_self _ _)) rfl hfree).bind
        (fun _ _ h => meets_throw h) (fun _ _ h => h)
    apply meets_call_bind
    · exact ⟨_, List.mem_cons_self, rfl, rfl, rfl⟩
    rintro (_ | _)
    · apply meets_call_bind trivial
      rintro (_ | _)
      · exact meets_pure ⟨_, rfl, rfl, htaken⟩
      · exact hundo
    · exact hundo
  · exact hexists
  · exact meets_throw hg

theorem meets_acquire {staleAfter : Option Rat} (hg : g.At role hs onto)
    (hfree : ∀ x ∈ hs, x.target ≠ target) (hstale : ∀ age, staleAfter = some age → role = .janitor ∧ limit ≤ age) :
    Meets (protocol limit) I g (acquire (σ := σ) target staleAfter token)
      (Acquired role hs onto target token) := by
  have hagain : ∀ g' : Know, g'.At role hs onto →
      Meets (protocol limit) I g' (tryCreate (σ := σ) target token (throw updating))
        (Acquired role hs onto target token) :=
    fun g' hg' => meets_tryCreate hg' hfree (meets_throw hg')
  apply meets_tryCreate hg hfree
  cases staleAfter with
  | none => exact meets_throw hg
  | some age =>
    apply meets_call_bind trivial
    intro (now : Rat)
    apply meets_call_bind
    · exact fun _ _ => hg.role.trans (hstale age rfl).1
    rintro (⟨mtime, inode⟩ | _ | _)
    · -- Only a lock that is older than `limit` is removed.
      apply meets_ite
      · intro _
        exact meets_throw ⟨hg.role, hg.held, hg.onto⟩
      · intro hold
        have hlimit : limit < now - mtime := lt_of_le_of_lt (hstale age rfl).2 (not_le.mp hold)
        apply meets_call_bind
        · refine .inr ⟨inode, ?_⟩
          show (if limit < now - mtime then some (target, inode) else none) = _
          rw [if_pos hlimit]
        have hgone : ∀ response, (nextKnow limit (nextKnow limit
            { g with clock := some now } (.stat (.lock target)) (.ok mtime inode))
            (.unlink (.lock target)) response).At role hs onto := by
          intro response
          refine ⟨hg.role, ?_, fun rename hr => hg.onto rename (Option.filter_eq_some_iff.mp hr).1⟩
          show g.held.filter _ = hs
          rw [hg.held, List.filter_eq_self]
          intro x hx
          simp only [ne_eq, decide_eq_true_eq]
          exact hfree x hx
        rintro (_ | _ | _)
        · exact hagain _ (hgone .ok)
        · exact hagain _ (hgone .notFound)
        · exact meets_throw (hgone .fault)
    · exact hagain _ ⟨hg.role, hg.held, hg.onto⟩
    · exact meets_throw ⟨hg.role, hg.held, hg.onto⟩

theorem meets_release {h : Hold} (hg : g.At role (h :: hs) (target :: onto))
    (ht : h.target = target) (htoken : h.token = token) (hfree : ∀ x ∈ hs, x.target ≠ target) :
    Meets (protocol limit) I g (release (σ := σ) target token) fun _ g' => g'.At role hs onto := by
  subst ht htoken
  have hreads : ∀ result, g.reads h.target result = true ↔ result = .ok (.token h.token) := by
    intro result
    unfold Know.reads
    rw [hg.held, List.any_eq_true]
    simp only [decide_eq_true_eq]
    constructor
    · rintro ⟨x, hx, hxt, hresult⟩
      rcases List.mem_cons.mp hx with rfl | hx
      · exact hresult
      · exact absurd hxt (hfree x hx)
    · rintro rfl
      exact ⟨h, List.mem_cons_self, rfl, rfl⟩
  have hgone : ∀ result : ReadText, result ≠ .ok (.token h.token) →
      (nextKnow limit g (.read (.lock h.target)) result).At role hs onto := by
    intro result hne
    show (if g.reads h.target result then g else g.drop h.target).At role hs onto
    rw [if_neg (fun hr => hne ((hreads result).mp hr))]
    exact hg.drop hfree
  apply meets_call_bind
  · exact ⟨h.target, .inr rfl⟩
  rintro (⟨content⟩ | _ | _)
  · apply meets_ite
    · rintro rfl
      show Meets _ _ (if g.reads h.target _ then g else _) _ _
      rw [if_pos ((hreads _).mpr rfl)]
      exact meets_unlinkLock hg rfl hfree
    · intro hne
      exact meets_pure (hgone (.ok content) fun heq => hne (ReadText.ok.inj heq))
  · exact meets_pure (hgone .notFound nofun)
  · exact meets_pure (hgone .fault nofun)

theorem meets_withLock {α : Type} {staleAfter : Option Rat} {body : Op σ α} {onto' : List Name}
    (hg : g.At role hs onto) (hfree : ∀ x ∈ hs, x.target ≠ target)
    (hstale : ∀ age, staleAfter = some age → role = .janitor ∧ limit ≤ age) (hsub : onto ⊆ onto')
    (hbody : ∀ h g', h.target = target → g'.At role (h :: hs) onto →
      Meets (protocol limit) I g' body fun _ g'' => g''.At role (h :: hs) (target :: onto')) :
    Meets (protocol limit) I g (withLock target staleAfter body)
      fun _ g' => g'.At role hs onto' := by
  apply meets_call_bind trivial
  intro token
  apply (meets_acquire hg hfree hstale).bind
  · rintro ⟨⟩ g' ⟨h, ht, htoken, hg'⟩
    apply (hbody h g' ht hg').capture_bind
    intro result g'' hg''
    apply (meets_release hg'' ht htoken hfree).bind
    · exact fun _ _ hg => meets_ofExcept hg
    · exact fun _ _ hg => hg
  · exact fun error g' hg' => hg'.mono hsub

end Lock

section Markers

variable {σ : Type} {limit : Rat} {I : σ → Prop} {g : Know} {target : Name} {owner : String}

theorem within_set_lease (contents : Option Content → Prop) :
    Know.Within target g (g.set (.lease target) contents) where
  role := rfl
  held := rfl
  promoting := rfl
  others := by
    intro other content hne hc
    rwa [Know.set_other _ _ (fun h => hne (Name.lease.inj h))] at hc

theorem within_set_temp (target' : Name) (contents : Option Content → Prop) :
    Know.Within target g (g.set (.temp target' owner) contents) where
  role := rfl
  held := rfl
  promoting := rfl
  others := by
    intro other content _ hc
    rwa [Know.set_other _ _ (by simp)] at hc

theorem within_clock (now : Rat) : Know.Within target g { g with clock := some now } :=
  ⟨⟨rfl, rfl, rfl⟩, fun _ _ _ h => h⟩

/-- A sidecar that was read names who `_marker_identity` returned. -/
def Identified (g : Know) (target : Name) (identity : Option (String × Rat)) : Prop :=
  ∀ content, g.maybe (.lease target) content → content.bind Content.identity = identity

theorem identified_see (content : Option Content) :
    Identified (g.see (.lease target) content) target (content.bind Content.identity) := by
  intro other hc
  rw [Know.see, Know.set_self] at hc
  rw [hc.2]

theorem Identified.leased {identity : String × Rat} (h : Identified g target (some identity)) :
    g.Leased target := by
  intro content hc
  rw [Named, h content hc]
  rfl

/-- A reservation learns nothing from a sidecar that it cannot read. -/
theorem meets_markerIdentity :
    Meets (protocol limit) I g (markerIdentity (σ := σ) target) fun r g' =>
      ∃ identity, r = .ok identity ∧ g.Within target g' ∧
        (g.role = .janitor ∨ identity ≠ none → Identified g' target identity) := by
  apply meets_call_bind
  · exact ⟨target, .inl rfl⟩
  rintro (⟨content⟩ | _ | _)
  · exact meets_pure ⟨_, rfl, within_set_lease _, fun _ => identified_see (some content)⟩
  · exact meets_pure ⟨_, rfl, within_set_lease _, fun _ => identified_see none⟩
  · apply meets_pure
    refine ⟨none, rfl, ?_⟩
    show g.Within target (if g.role = .janitor then g.see (.lease target) none else g) ∧ _
    by_cases hrole : g.role = .janitor
    · rw [if_pos hrole]
      refine ⟨within_set_lease _, fun _ => ?_⟩
      show Identified (if g.role = .janitor then g.see (.lease target) none else g) target none
      rw [if_pos hrole]
      exact identified_see none
    · rw [if_neg hrole]
      exact ⟨.refl target g, fun h => h.elim (absurd · hrole) fun h => absurd rfl h⟩

theorem meets_checkMarker {requireOwner : Bool} :
    Meets (protocol limit) I g (checkMarker (σ := σ) owner target requireOwner)
      fun _ g' => g.Within target g' := by
  apply meets_markerIdentity.bind
  · rintro identity g' ⟨_, -, hg', -⟩
    cases identity with
    | none => exact meets_pure hg'
    | some identity =>
      apply meets_ite
      · exact fun _ => meets_pure hg'
      intro _
      apply meets_ite
      · exact fun _ => meets_throw hg'
      intro _
      apply meets_call_bind trivial
      intro (now : Rat)
      have hclock := hg'.trans (within_clock now)
      exact meets_ite (fun _ => meets_throw hclock) (fun _ => meets_pure hclock)
  · rintro error g' ⟨_, -, hg', -⟩
    exact hg'

/-- What is left after writing the sidecar: a lease, unless it failed. -/
def Written (g : Know) (target : Name) (r : Except LeaseError Unit) (g' : Know) : Prop :=
  g.Within target g' ∧ (r = .ok () → g'.Leased target)

theorem Written.temp {r : Except LeaseError Unit} {g' : Know} (h : Written g target r g')
    (target' : Name) (contents : Option Content → Prop) :
    Written g target r (g'.set (.temp target' owner) contents) := by
  refine ⟨h.1.trans (within_set_temp target' contents), ?_⟩
  intro hr content hc
  rw [Know.set_other _ _ (by simp)] at hc
  exact h.2 hr content hc

theorem meets_replaceMarker {expiresAt : Rat} {g₀ : Know} (hg : g₀.Within target g)
    (hheld : g.Holds target) (howner : owner ≠ "") :
    Meets (protocol limit) I g (do
        orOSError (σ := σ) (← writeText (.temp target owner) (.lease owner expiresAt))
        orOSError (← replaceCall (.temp target owner) (.lease target)))
      (Written g₀ target) := by
  have hfailed : ∀ {contents} {r : Except LeaseError Unit}, r ≠ .ok () →
      Written g₀ target r (g.set (.temp target owner) contents) :=
    fun hr => ⟨hg.trans (within_set_temp _ _), fun h => absurd h hr⟩
  apply meets_call_bind
  · exact ⟨target, owner, rfl, hheld⟩
  rintro (_ | _)
  · have hnamed : ∀ content, (g.set (.temp target owner)
        fun other => other = some (.lease owner expiresAt)).maybe (.temp target owner) content →
        Named content := by
      intro content hc
      rw [Know.set_self] at hc
      subst hc
      simp [Named, Content.identity, howner]
    have hreplaced : ∀ done, g₀.Within target (nextKnow limit (g.set (.temp target owner)
        fun other => other = some (.lease owner expiresAt))
        (.replace (.temp target owner) (.lease target)) done) :=
      fun done => (hg.trans (within_set_temp _ _)).trans
        ((within_set_lease _).trans (within_set_temp target _))
    apply meets_call_bind
    · exact ⟨rfl, hheld, hnamed⟩
    rintro (_ | _)
    · apply meets_pure
      refine ⟨hreplaced .ok, ?_⟩
      intro _ content hc
      change (Know.set _ _ _).maybe _ _ at hc
      rw [Know.set_other _ _ (by simp), Know.set_self] at hc
      exact hnamed content hc
    · exact meets_throw ⟨hreplaced .fault, nofun⟩
  · exact meets_throw (hfailed nofun)

theorem meets_writeMarkerLocked {leaseTtl : Rat} {requireOwner : Bool} (hheld : g.Holds target)
    (howner : owner ≠ "") :
    Meets (protocol limit) I g
      (writeMarkerLocked (σ := σ) owner leaseTtl target requireOwner) (Written g target) := by
  apply meets_checkMarker.bind
  · rintro ⟨⟩ g₁ hg₁
    apply meets_call_bind trivial
    intro (now : Rat)
    have hg₂ := hg₁.trans (within_clock now)
    apply (meets_replaceMarker hg₂ (hg₂.holds hheld) howner).capture_bind
    intro result g₃ hg₃
    apply meets_call_bind trivial
    rintro (_ | _ | _)
    · exact meets_ofExcept (hg₃.temp target _)
    · exact meets_ofExcept (hg₃.temp target _)
    · exact meets_throw ⟨(hg₃.temp target _).1, nofun⟩
  · exact fun error g' hg' => ⟨hg', nofun⟩

theorem meets_assertMarkerOwnerLocked :
    Meets (protocol limit) I g (assertMarkerOwnerLocked (σ := σ) owner target)
      (Written g target) := by
  apply meets_markerIdentity.bind
  · rintro identity g' ⟨_, heq, hg', hidentified⟩
    obtain rfl := Except.ok.inj heq
    apply meets_ite
    · intro howner
      obtain ⟨pair, rfl, -⟩ := Option.map_eq_some_iff.mp howner
      exact meets_pure ⟨hg', fun _ => (hidentified (.inr nofun)).leased⟩
    · exact fun _ => meets_throw ⟨hg', nofun⟩
  · rintro error g' ⟨_, heq, -⟩
    cases heq

theorem meets_unlinkLease (hheld : g.Holds target) (hsettled : g.Settled target)
    (hinactive : g.role = .janitor → g.Inactive target) :
    Meets (protocol limit) I g (unlinkMissingOk (σ := σ) (.lease target))
      fun _ g' => g.Within target g' := by
  apply meets_call_bind
  · exact ⟨hheld, hsettled, hinactive⟩
  rintro (_ | _ | _)
  · exact meets_pure (within_set_lease _)
  · exact meets_pure (within_set_lease _)
  · exact meets_throw (within_set_lease _)

theorem meets_removeMarkerIfOwnedLocked (hrole : g.role = .reservation) (hheld : g.Holds target)
    (hsettled : g.Settled target) :
    Meets (protocol limit) I g (removeMarkerIfOwnedLocked (σ := σ) owner target)
      fun _ g' => g.Within target g' := by
  apply meets_markerIdentity.bind
  · rintro identity g' ⟨_, -, hg', -⟩
    apply meets_ite
    · intro _
      have hrole' : g'.role = .janitor → g'.Inactive target :=
        fun h => absurd (hg'.role.symm.trans h) (hrole ▸ nofun)
      exact (meets_unlinkLease (hg'.holds hheld) (hg'.settled hsettled) hrole').mono
        fun _ _ h => hg'.trans h
    · exact fun _ => meets_pure hg'
  · rintro error g' ⟨_, -, hg', -⟩
    exact hg'

theorem meets_isActiveMediaLease (hrole : g.role = .janitor) :
    Meets (protocol limit) I g (isActiveMediaLease (σ := σ) target) fun r g' =>
      g.Within target g' ∧ (r = .ok false → g'.Inactive target) := by
  apply meets_markerIdentity.bind
  · rintro identity g' ⟨_, heq, hg', hidentified⟩
    obtain rfl := Except.ok.inj heq
    have hseen := hidentified (.inl hrole)
    cases identity with
    | none =>
      apply meets_pure
      refine ⟨hg', fun _ content hc owner expiresAt hnamed => ?_⟩
      rw [hseen content hc] at hnamed
      cases hnamed
    | some identity =>
      apply meets_call_bind trivial
      intro (now : Rat)
      apply meets_pure
      refine ⟨hg'.trans (within_clock now), ?_⟩
      intro hexpired content hc owner expiresAt hnamed
      rw [hseen content hc] at hnamed
      obtain rfl := Option.some.inj hnamed
      have hnot : ¬ now < expiresAt := of_decide_eq_false (Except.ok.inj hexpired)
      exact ⟨now, rfl, not_lt.mp hnot⟩
  · rintro error g' ⟨_, -, hg', -⟩
    exact ⟨hg', nofun⟩

end Markers

section Reservations

variable {limit : Rat} {g : Know} {hs : List Hold} {r : Reservation} {old new : Name}

/-- A reservation has an owner. -/
def HasOwner (r : Reservation) : Prop := r.owner ≠ ""

instance (r : Reservation) : Decidable (HasOwner r) := inferInstanceAs (Decidable (_ ≠ _))

theorem meets_checkNotReleased :
    Meets (protocol limit) HasOwner g Reservation.checkNotReleased
      fun result g' => g' = g ∧ ∀ r, result = .ok r → HasOwner r := by
  apply meets_get_bind
  intro r hr
  apply meets_ite
  · exact fun _ => meets_throw ⟨rfl, nofun⟩
  · exact fun _ => meets_pure ⟨rfl, fun _ heq => Except.ok.inj heq ▸ hr⟩

theorem hasOwner_addPath {path : Name} (h : HasOwner r) : HasOwner (r.addPath path) := by
  unfold Reservation.addPath
  by_cases hmem : path ∈ r.paths
  · rw [if_pos hmem]
    exact h
  · rw [if_neg hmem]
    exact h

theorem hasOwner_discardPath {path : Name} (h : HasOwner r) : HasOwner (r.discardPath path) := h

theorem meets_writeMarker {path : Name} {requireOwner : Bool} (hr : HasOwner r)
    (hg : g.At .reservation [] []) :
    Meets (protocol limit) HasOwner g (r.writeMarker path requireOwner)
      fun _ g' => g'.At .reservation [] [] := by
  apply meets_withLock hg (by simp) (by simp) (List.Subset.refl _)
  rintro h g' rfl hg'
  apply (meets_writeMarkerLocked (hg'.holds List.mem_cons_self) hr).mono
  exact fun _ _ hwritten => (hwritten.1.toStays.at hg').mono (List.nil_subset _)

theorem meets_removeMarker {path : Name} (hg : g.At .reservation [] []) :
    Meets (protocol limit) HasOwner g (withLock path none (removeMarkerIfOwnedLocked r.owner path))
      fun _ g' => g'.At .reservation [] [] := by
  apply meets_withLock hg (by simp) (by simp) (List.Subset.refl _)
  rintro h g' rfl hg'
  apply (meets_removeMarkerIfOwnedLocked hg'.role (hg'.holds List.mem_cons_self)
    (hg'.settled _)).mono
  exact fun _ _ hwithin => (hwithin.toStays.at hg').mono (List.nil_subset _)

/-- In the middle of a promotion: the file is renamed, or its source is still leased. -/
structure Midway (old new : Name) (hs : List Hold) (g : Know) : Prop where
  role : g.role = .reservation
  held : g.held = hs
  promoting : g.promoting = some (old, new) ∨ (g.promoting = none ∧ g.Leased old)

theorem Midway.at (h : Midway old new hs g) : g.At .reservation hs [new, old] := by
  refine ⟨h.role, h.held, ?_⟩
  rintro rename hr
  rcases h.promoting with hp | ⟨hp, -⟩
  · rw [hp] at hr
    obtain rfl := Option.some.inj hr
    exact List.mem_cons_self
  · rw [hp] at hr
    cases hr

theorem Midway.holds (h : Midway old new hs g) {target : Name}
    (ht : ∃ x ∈ hs, x.target = target) : g.Holds target := by
  unfold Know.Holds
  rw [h.held]
  exact ht

theorem Midway.settle (isOver : Name × Name → Bool) (h : Midway old new hs g)
    (hover : isOver (old, new) = false) : Midway old new hs (g.settle isOver) := by
  refine ⟨h.role, h.held, ?_⟩
  rcases h.promoting with hp | ⟨hp, hl⟩
  · left
    show g.promoting.filter _ = _
    rw [hp, Option.filter_some, if_pos (by rw [hover]; rfl)]
  · right
    refine ⟨?_, hl⟩
    show g.promoting.filter _ = _
    rw [hp, Option.filter_none]

theorem Midway.finished {isOver : Name × Name → Bool} (h : Midway old new hs g)
    (hover : isOver (old, new) = true) : (g.settle isOver).At .reservation hs [] := by
  refine ⟨h.role, h.held, ?_⟩
  intro rename hr
  obtain ⟨hp, hnot⟩ := Option.filter_eq_some_iff.mp hr
  rcases h.promoting with hp' | ⟨hp', -⟩
  · rw [hp'] at hp
    obtain rfl := Option.some.inj hp
    rw [hover] at hnot
    cases hnot
  · rw [hp'] at hp
    cases hp

theorem meets_movedDespiteFailure (hg : Midway old new hs g) (hne : old ≠ new) :
    Meets (protocol limit) HasOwner g (Reservation.movedDespiteFailure old new) fun result g' =>
      ∃ moved, result = .ok moved ∧ (moved = true → Midway old new hs g') ∧
        (moved = false → g'.At .reservation hs []) := by
  apply meets_call_bind trivial
  rintro (_ | _)
  · -- The source is not seen, so the rename is not over.
    have hg' := hg.settle (fun rename =>
      (old = rename.1 && false) || (old = rename.2 && !false)) (by simp [hne])
    apply meets_call
    · trivial
    rintro (_ | _)
    · exact ⟨false, rfl, nofun, fun _ => hg'.finished (by simp)⟩
    · exact ⟨true, rfl, fun _ => hg'.settle _ (by simp [hne.symm]), nofun⟩
  · exact meets_pure ⟨false, rfl, nofun, fun _ => hg.finished (by simp)⟩

theorem Midway.back (h : Midway old new hs g) (hne : old ≠ new) (done : Done) :
    (g.renamed new old done).At .reservation hs [new, old] ∧
      (done = .ok → (g.renamed new old done).Settled new) := by
  unfold Know.renamed
  by_cases hp : g.promoting = some (old, new)
  · rw [if_pos hp]
    cases done with
    | ok => exact ⟨⟨h.role, h.held, nofun⟩, fun _ _ hs => nomatch hs⟩
    | fault => exact ⟨h.at, nofun⟩
  · rw [if_neg hp]
    refine ⟨⟨h.role, h.held, ?_⟩, ?_⟩
    · rintro rename hr
      obtain rfl := Option.some.inj hr
      simp
    · intro _ source hr
      exact hne (Prod.mk.inj (Option.some.inj hr)).2

theorem meets_discardOld {a b : BaseName} (hg : g.At .reservation hs [.base b, .base a])
    (hsettled : g.Settled (.base b)) (ha : ∃ x ∈ hs, x.target = .base a) :
    Meets (protocol limit) HasOwner g (do
        unlinkMissingOk (.base a)
        removeMarkerIfOwnedLocked r.owner (.base a)
        modify (Reservation.discardPath (.base a))
        pure false)
      fun result g' => g'.At .reservation hs [.base b, .base a] ∧
        (result = .ok false → g'.Settled (.base b)) := by
  have hgone : (g.settle fun rename => rename.2 = .base a).At .reservation hs [] := by
    refine ⟨hg.role, hg.held, ?_⟩
    rintro ⟨source, destination⟩ hr
    obtain ⟨hp, hnot⟩ := Option.filter_eq_some_iff.mp hr
    rcases List.mem_pair.mp (hg.onto _ hp) with rfl | rfl
    · exact absurd hp (hsettled source)
    · simp at hnot
  apply Meets.bind (Q := fun r g' => g'.At .reservation hs [.base b, .base a] ∧
    (r = .ok () → g'.At .reservation hs []))
  · apply meets_call_bind
    · intro hrole
      rw [hg.role] at hrole
      cases hrole
    rintro (_ | _ | _)
    · exact meets_pure ⟨hgone.mono (List.nil_subset _), fun _ => hgone⟩
    · exact meets_pure ⟨hgone.mono (List.nil_subset _), fun _ => hgone⟩
    · exact meets_throw ⟨⟨hg.role, hg.held, hg.onto⟩, nofun⟩
  · rintro ⟨⟩ g₁ ⟨-, hg₁⟩
    have hg₁ := hg₁ rfl
    have hheld : g₁.Holds (.base a) := by
      unfold Know.Holds
      rw [hg₁.held]
      exact ha
    apply (meets_removeMarkerIfOwnedLocked hg₁.role hheld (hg₁.settled _)).bind
    · intro _ g₂ hg₂
      have hat := hg₂.toStays.at hg₁
      refine meets_modify_bind (fun _ => hasOwner_discardPath) ?_
      exact meets_pure ⟨hat.mono (List.nil_subset _), fun _ => hat.settled _⟩
    · exact fun _ _ hg₂ => ⟨(hg₂.toStays.at hg₁).mono (List.nil_subset _), nofun⟩
  · exact fun _ _ h => ⟨h.1, nofun⟩

theorem meets_moveBack {a b : BaseName} (hg : Midway (.base a) (.base b) hs g)
    (hr : HasOwner r) (ha : ∃ x ∈ hs, x.target = .base a) (hne : a ≠ b) :
    Meets (protocol limit) HasOwner g (Reservation.moveBack r (.base a) (.base b))
      fun result g' => g'.At .reservation hs [.base b, .base a] ∧
        (result = .ok false → g'.Settled (.base b)) := by
  have hne' : Name.base a ≠ .base b := fun h => hne (Name.base.inj h)
  have hreplaced : Meets (protocol limit) HasOwner g
      (do orOSError (← replaceCall (.base b) (.base a)))
      fun result g' => g'.At .reservation hs [.base b, .base a] ∧
        (result = .ok () → g'.Settled (.base b)) := by
    apply meets_call_bind
    · rcases hg.promoting with hp | ⟨hp, hl⟩
      · exact ⟨hg.role, .inl hp⟩
      · exact ⟨hg.role, .inr ⟨hp, hg.holds ha, hl⟩⟩
    rintro (_ | _)
    · exact meets_pure ⟨(hg.back hne' .ok).1, fun _ => (hg.back hne' .ok).2 rfl⟩
    · exact meets_throw ⟨(hg.back hne' .fault).1, nofun⟩
  apply hreplaced.capture_bind
  rintro result g₁ ⟨hg₁, hsettled⟩
  cases result with
  | error error => exact meets_pure ⟨hg₁, nofun⟩
  | ok _ =>
    have hsettled := hsettled rfl
    have hheld : g₁.Holds (.base a) := by
      unfold Know.Holds
      rw [hg₁.held]
      exact ha
    have hwritten : Meets (protocol limit) HasOwner g₁ (do
          writeMarkerLocked r.owner r.leaseTtl (.base a) false
          modify (Reservation.addPath (.base a)))
        fun _ g' => g₁.Within (.base a) g' := by
      apply (meets_writeMarkerLocked hheld hr).bind
      · exact fun _ g' hg' => meets_modify (fun _ => hasOwner_addPath) hg'.1
      · exact fun _ _ hg' => hg'.1
    apply hwritten.capture_bind
    rintro result g₂ hg₂
    have hat := hg₂.toStays.at hg₁
    have hsettled₂ := hg₂.settled hsettled
    cases result with
    | ok _ => exact meets_pure ⟨hat, fun _ => hsettled₂⟩
    | error error =>
      cases error with
      | osError => exact meets_discardOld hat hsettled₂ ha
      | ownership message => exact meets_throw ⟨hat, nofun⟩
      | runtime message => exact meets_throw ⟨hat, nofun⟩
      | value message => exact meets_throw ⟨hat, nofun⟩

theorem meets_recoverPromotion {a b : BaseName} {renamed : Bool} {error : LeaseError}
    (hg : Midway (.base a) (.base b) hs g) (hr : HasOwner r)
    (ha : ∃ x ∈ hs, x.target = .base a) (hb : ∃ x ∈ hs, x.target = .base b) (hne : a ≠ b) :
    Meets (protocol limit) HasOwner g
      (Reservation.recoverPromotion r (.base a) (.base b) renamed error)
      fun _ g' => g'.At .reservation hs [.base b, .base a] := by
  have hne' : Name.base a ≠ .base b := fun h => hne (Name.base.inj h)
  apply Meets.bind (Q := fun result g' => ∃ moved, result = .ok moved ∧
    (moved = true → Midway (.base a) (.base b) hs g') ∧
      (moved = false → g'.At .reservation hs []))
  · apply meets_ite
    · exact fun _ => meets_pure ⟨true, rfl, fun _ => hg, nofun⟩
    · exact fun _ => meets_movedDespiteFailure hg hne'
  · rintro moved g₁ ⟨_, heq, hmidway, hover⟩
    obtain rfl := Except.ok.inj heq
    apply Meets.bind (Q := fun result g' => g'.At .reservation hs [.base b, .base a] ∧
      (result = .ok false → g'.Settled (.base b)))
    · apply meets_ite
      · exact fun h => meets_moveBack (hmidway h) hr ha hne
      · intro h
        have hat := hover (Bool.not_eq_true _ ▸ h)
        exact meets_pure ⟨hat.mono (List.nil_subset _), fun _ => hat.settled _⟩
    · rintro renamed' g₂ ⟨hg₂, hsettled⟩
      apply meets_ite
      · exact fun _ => meets_throw hg₂
      · intro h
        obtain rfl : renamed' = false := Bool.not_eq_true _ ▸ h
        have hheld : g₂.Holds (.base b) := by
          unfold Know.Holds
          rw [hg₂.held]
          exact hb
        apply (meets_removeMarkerIfOwnedLocked hg₂.role hheld (hsettled rfl)).bind
        · intro _ g₃ hg₃
          exact meets_modify_bind (fun _ => hasOwner_discardPath) (meets_throw (hg₃.toStays.at hg₂))
        · exact fun _ _ hg₃ => hg₃.toStays.at hg₂
    · exact fun _ _ h => h.1
  · rintro error' g₁ ⟨_, heq, -⟩
    cases heq

theorem meets_promoteLocked {a b : BaseName} (hg : g.At .reservation hs []) (hr : HasOwner r)
    (ha : ∃ x ∈ hs, x.target = .base a) (hb : ∃ x ∈ hs, x.target = .base b) (hne : a ≠ b) :
    Meets (protocol limit) HasOwner g (Reservation.promoteLocked r (.base a) (.base b))
      fun _ g' => g'.At .reservation hs [.base b, .base a] := by
  have hne' : Name.base a ≠ .base b := fun h => hne (Name.base.inj h)
  apply meets_ite
  · exact fun _ => meets_throw (hg.mono (List.nil_subset _))
  intro _
  apply meets_ite
  · exact fun _ => meets_throw (hg.mono (List.nil_subset _))
  intro _
  apply meets_assertMarkerOwnerLocked.bind
  · rintro ⟨⟩ g₁ ⟨hg₁, hleased⟩
    have hleased := hleased rfl
    have hat₁ := hg₁.toStays.at hg
    have hheld₁ : g₁.Holds (.base b) := by
      unfold Know.Holds
      rw [hat₁.held]
      exact hb
    have hmoved : Meets (protocol limit) HasOwner g₁ (do
          writeMarkerLocked r.owner r.leaseTtl (.base b) false
          modify (Reservation.addPath (.base b))
          orOSError (← replaceCall (.base a) (.base b)))
        fun result g' => Midway (.base a) (.base b) hs g' ∧
          (result = .ok () → g'.promoting = some (.base a, .base b)) := by
      apply (meets_writeMarkerLocked hheld₁ hr).bind
      · rintro ⟨⟩ g₂ ⟨hg₂, hleased₂⟩
        have hat₂ := hg₂.toStays.at hat₁
        have hrenamed : ∀ done, (g₂.renamed (.base a) (.base b) done).promoting =
            some (.base a, .base b) := by
          intro done
          unfold Know.renamed
          rw [if_neg (by rw [hat₂.promoting]; nofun)]
        have hmidway : ∀ done, Midway (.base a) (.base b) hs
            (g₂.renamed (.base a) (.base b) done) := by
          intro done
          refine ⟨?_, ?_, .inl (hrenamed done)⟩
          · unfold Know.renamed
            rw [if_neg (by rw [hat₂.promoting]; nofun)]
            exact hat₂.role
          · unfold Know.renamed
            rw [if_neg (by rw [hat₂.promoting]; nofun)]
            exact hat₂.held
        refine meets_modify_bind (fun _ => hasOwner_addPath) ?_
        apply meets_call_bind
        · exact ⟨hat₂.role, .inr ⟨hat₂.promoting, hg₂.holds hheld₁, hleased₂ rfl⟩⟩
        rintro (_ | _)
        · exact meets_pure ⟨hmidway .ok, fun _ => hrenamed .ok⟩
        · exact meets_throw ⟨hmidway .fault, nofun⟩
      · rintro error g₂ ⟨hg₂, -⟩
        have hat₂ := hg₂.toStays.at hat₁
        exact ⟨⟨hat₂.role, hat₂.held, .inr ⟨hat₂.promoting, hg₂.leased hne' hleased⟩⟩, nofun⟩
    apply hmoved.capture_bind
    rintro result g₂ ⟨hmidway, hpromoting⟩
    cases result with
    | error error => exact meets_recoverPromotion hmidway hr ha hb hne
    | ok _ =>
      have hpromoting := hpromoting rfl
      have hsettled : g₂.Settled (.base a) := by
        intro source hp
        rw [hpromoting] at hp
        exact hne' (Prod.mk.inj (Option.some.inj hp)).2.symm
      have hremoved : Meets (protocol limit) HasOwner g₂ (do
            removeMarkerIfOwnedLocked r.owner (.base a)
            modify (Reservation.discardPath (.base a)))
          fun _ g' => g₂.Within (.base a) g' := by
        apply (meets_removeMarkerIfOwnedLocked hmidway.role (hmidway.holds ha) hsettled).bind
        · exact fun _ _ hg₃ => meets_modify (fun _ => hasOwner_discardPath) hg₃
        · exact fun _ _ hg₃ => hg₃
      apply hremoved.capture_bind
      rintro result g₃ hg₃
      have hmidway₃ : Midway (.base a) (.base b) hs g₃ :=
        ⟨hg₃.role.trans hmidway.role, hg₃.held.trans hmidway.held,
          .inl (hg₃.promoting.trans hpromoting)⟩
      cases result with
      | ok _ => exact meets_pure hmidway₃.at
      | error error => exact meets_recoverPromotion hmidway₃ hr ha hb hne
  · exact fun _ _ h => (h.1.toStays.at hg).mono (List.nil_subset _)

theorem meets_nestedLocks {α : Type} {first second : Name} (onto : List Name)
    {body : Op Reservation α} (hne : first ≠ second) (honto : onto ⊆ [second, first])
    (hg : g.At .reservation [] [])
    (hbody : ∀ hs g', (∃ x ∈ hs, x.target = first) → (∃ x ∈ hs, x.target = second) →
      g'.At .reservation hs [] →
      Meets (protocol limit) HasOwner g' body fun _ g'' => g''.At .reservation hs onto) :
    Meets (protocol limit) HasOwner g (withLock first none (withLock second none body))
      fun _ g' => g'.At .reservation [] [] := by
  apply meets_withLock hg (by simp) (by simp) (List.Subset.refl _)
  intro h g' ht hg'
  have hfree : ∀ x ∈ [h], x.target ≠ second := by
    intro x hx
    rw [List.mem_singleton.mp hx, ht]
    exact hne
  apply meets_withLock hg' hfree (by simp) (List.nil_subset _)
  intro h' g'' ht' hg''
  apply (hbody [h', h] g'' ⟨h, by simp, ht⟩ ⟨h', by simp, ht'⟩ hg'').mono
  exact fun _ _ hat => hat.mono honto

theorem meets_promote {a b : BaseName} (hg : g.At .reservation [] []) :
    Meets (protocol limit) HasOwner g (Reservation.promote (.base a) (.base b))
      fun _ g' => g'.At .reservation [] [] := by
  apply meets_checkNotReleased.bind
  · rintro r g' ⟨rfl, hr⟩
    have hr := hr r rfl
    apply meets_ite
    · exact fun _ => meets_throw hg
    intro hne
    have hne' : a ≠ b := fun h => hne (congrArg _ h)
    show Meets _ _ _ (Reservation.withLocks _ _ _) _
    unfold Reservation.withLocks
    rw [if_neg hne]
    apply meets_ite
    · intro _
      exact meets_nestedLocks _ hne (List.Subset.refl _) hg
        fun _ _ ha hb hat => meets_promoteLocked hat hr ha hb hne'
    · intro _
      apply meets_nestedLocks [.base b, .base a] (Ne.symm hne) _ hg
      · exact fun _ _ hb ha hat => meets_promoteLocked hat hr ha hb hne'
      · intro x hx
        exact List.mem_pair.mpr (List.mem_pair.mp hx).symm
  · rintro error g' ⟨rfl, -⟩
    exact hg

theorem meets_renewPaths (hr : HasOwner r) (paths : List Name) (hg : g.At .reservation [] []) :
    Meets (protocol limit) HasOwner g (Reservation.renewPaths r paths)
      fun _ g' => g'.At .reservation [] [] := by
  induction paths generalizing g with
  | nil => exact meets_pure hg
  | cons path paths ih =>
    exact (meets_writeMarker hr hg).bind (fun _ _ hg' => ih hg') (fun _ _ hg' => hg')

theorem meets_releasePaths (paths : List Name) (hg : g.At .reservation [] []) :
    Meets (protocol limit) HasOwner g (Reservation.releasePaths r paths)
      fun _ g' => g'.At .reservation [] [] := by
  induction paths generalizing g with
  | nil => exact meets_pure hg
  | cons path paths ih =>
    apply (meets_removeMarker hg).capture_bind
    intro result g' hg'
    cases result with
    | ok _ => exact ih hg'
    | error error =>
      cases error with
      | ownership message => exact ih hg'
      | osError => exact meets_throw hg'
      | runtime message => exact meets_throw hg'
      | value message => exact meets_throw hg'

theorem meets_releaseOp (hg : g.At .reservation [] []) :
    Meets (protocol limit) HasOwner g Reservation.releaseOp
      fun _ g' => g'.At .reservation [] [] := by
  apply meets_get_bind
  intro r hr
  apply meets_ite
  · exact fun _ => meets_pure hg
  intro _
  refine meets_modify_bind (fun _ h => h) ?_
  apply (meets_releasePaths r.paths hg).capture_bind
  intro result g' hg'
  exact meets_modify_bind (fun _ h => h) (meets_ofExcept hg')

/-- A command on media files. -/
def Reservation.Command.OnBase : Reservation.Command → Prop
  | .bind path | .unbind path => path.isBase = true
  | .promote old new => old.isBase = true ∧ new.isBase = true
  | .renew | .release | .reorder _ => True

instance : (command : Reservation.Command) → Decidable command.OnBase
  | .bind _ | .unbind _ => inferInstanceAs (Decidable (_ = true))
  | .promote _ _ => inferInstanceAs (Decidable (_ ∧ _))
  | .renew | .release | .reorder _ => isTrue trivial

theorem meets_command {command : Reservation.Command} (hbase : command.OnBase)
    (hg : g.At .reservation [] []) :
    Meets (protocol limit) HasOwner g command.run fun _ g' => g'.At .reservation [] [] := by
  cases command with
  | bind path =>
    apply meets_checkNotReleased.bind
    · rintro r g' ⟨rfl, hr⟩
      apply (meets_writeMarker (hr r rfl) hg).bind
      · exact fun _ _ hg' => meets_modify (fun _ => hasOwner_addPath) hg'
      · exact fun _ _ hg' => hg'
    · rintro error g' ⟨rfl, -⟩
      exact hg
  | renew =>
    apply meets_checkNotReleased.bind
    · rintro r g' ⟨rfl, hr⟩
      exact meets_renewPaths (hr r rfl) r.paths hg
    · rintro error g' ⟨rfl, -⟩
      exact hg
  | promote old new =>
    obtain ⟨a, rfl⟩ := Name.exists_of_isBase hbase.1
    obtain ⟨b, rfl⟩ := Name.exists_of_isBase hbase.2
    exact meets_promote hg
  | unbind path =>
    apply meets_get_bind
    intro r hr
    apply meets_ite
    · exact fun _ => meets_pure hg
    intro _
    apply (meets_removeMarker hg).bind
    · exact fun _ _ hg' => meets_modify (fun _ => hasOwner_discardPath) hg'
    · exact fun _ _ hg' => hg'
  | release => exact meets_releaseOp hg
  | reorder order =>
    refine meets_modify (fun r hr => ?_) hg
    by_cases hperm : order.Perm r.paths
    · rw [if_pos hperm]
      exact hr
    · rw [if_neg hperm]
      exact hr

theorem meets_session (commands : List Reservation.Command)
    (hbase : ∀ command ∈ commands, command.OnBase) (hg : g.At .reservation [] []) :
    Meets (protocol limit) HasOwner g (Reservation.session commands)
      fun _ g' => g'.At .reservation [] [] := by
  induction commands generalizing g with
  | nil => exact meets_pure hg
  | cons command commands ih =>
    apply (meets_command (hbase command List.mem_cons_self) hg).capture_bind
    exact fun _ _ hg' => ih (fun other hmem => hbase other (List.mem_cons_of_mem _ hmem)) hg'

end Reservations

section Janitor

variable {limit maxTempAge : Rat} {g : Know} {h : Hold} {target : Name} {I : Unit → Prop}

theorem meets_unlessOwned {α : Type} {value : α} {x : Op Unit α} {Q : Know → Prop}
    (hx : Meets (protocol limit) I g x fun _ g' => Q g') :
    Meets (protocol limit) I g (unlessOwned value x) fun _ g' => Q g' := by
  apply hx.capture_bind
  intro result g' hg'
  cases result with
  | ok _ => exact meets_pure hg'
  | error error =>
    cases error with
    | ownership message => exact meets_pure hg'
    | osError => exact meets_throw hg'
    | runtime message => exact meets_throw hg'
    | value message => exact meets_throw hg'

theorem meets_guarded {α : Type} {value : α} {body : Op Unit α} (hlimit : limit ≤ maxTempAge)
    (hg : g.At .janitor [] [])
    (hbody : ∀ h g', h.target = target → g'.At .janitor [h] [] →
      Meets (protocol limit) I g' body fun _ g'' => g''.At .janitor [h] []) :
    Meets (protocol limit) I g (unlessOwned value (withLock target (some maxTempAge) body))
      fun _ g' => g'.At .janitor [] [] := by
  apply meets_unlessOwned (Q := fun g' => g'.At .janitor [] [])
  apply meets_withLock hg (by simp) _ (List.Subset.refl _)
  · intro h g' ht hg'
    exact (hbody h g' ht hg').mono fun _ _ hat => hat.mono (List.nil_subset _)
  · rintro age heq
    exact ⟨rfl, Option.some.inj heq ▸ hlimit⟩

theorem meets_exists {hs : List Hold} {name : Name} (hg : g.At .janitor hs []) :
    Meets (protocol limit) I g (fileExists (σ := Unit) name) fun _ g' =>
      g'.At .janitor hs [] ∧ ∀ target, g.Inactive target → g'.Inactive target :=
  meets_call trivial fun _ => ⟨⟨hg.role, hg.held, fun rename hr =>
    hg.onto rename (Option.filter_eq_some_iff.mp hr).1⟩, fun _ h => h⟩

/-- Only a media file that was found without an active lease is removed. -/
theorem meets_safeRemove {file : BaseName} (hg : g.At .janitor [h] [])
    (ht : h.target = .base file) (hinactive : g.Inactive (.base file)) :
    Meets (protocol limit) I g (safeRemove (.base file)) fun _ g' =>
      g'.At .janitor [h] [] ∧ g'.Inactive (.base file) := by
  apply meets_exists hg |>.bind
  · rintro found g₁ ⟨hg₁, hinactive₁⟩
    apply meets_ite
    · intro _
      apply meets_call_bind
      · exact fun _ => ⟨ht ▸ hg₁.holds List.mem_cons_self, hinactive₁ _ hinactive⟩
      have hsettled : ∀ isOver : Name × Name → Bool, (g₁.settle isOver).At .janitor [h] [] :=
        fun isOver => ⟨hg₁.role, hg₁.held, fun rename hr =>
          hg₁.onto rename (Option.filter_eq_some_iff.mp hr).1⟩
      have hkept := hinactive₁ _ hinactive
      rintro (_ | _ | _)
      · exact meets_pure ⟨hsettled _, hkept⟩
      · exact meets_pure ⟨hsettled _, hkept⟩
      · apply meets_pure
        refine ⟨⟨hg₁.role, hg₁.held, hg₁.onto⟩, fun content hc => ?_⟩
        change (Know.set _ _ _).maybe _ _ at hc
        rw [Know.set_other _ _ (by simp)] at hc
        exact hkept content hc
    · exact fun _ => meets_pure ⟨hg₁, hinactive₁ _ hinactive⟩
  · exact fun _ _ hg₁ => ⟨hg₁.1, hg₁.2 _ hinactive⟩

theorem meets_unlinkInactive (hg : g.At .janitor [h] []) (ht : h.target = target)
    (hinactive : g.Inactive target) :
    Meets (protocol limit) I g (unlinkMissingOk (σ := Unit) (.lease target))
      fun _ g' => g'.At .janitor [h] [] := by
  apply (meets_unlinkLease (ht ▸ hg.holds List.mem_cons_self) (hg.settled _)
    fun _ => hinactive).mono
  exact fun _ _ hwithin => hwithin.toStays.at hg

theorem meets_purgeTarget {file : BaseName} (hg : g.At .janitor [h] [])
    (ht : h.target = .base file) :
    Meets (protocol limit) I g (purgeTarget (.base file)) fun _ g' => g'.At .janitor [h] [] := by
  apply (meets_isActiveMediaLease hg.role).bind
  · rintro active g₁ ⟨hg₁, hinactive⟩
    have hat := hg₁.toStays.at hg
    apply meets_ite
    · exact fun _ => meets_pure hat
    intro hnot
    obtain rfl : active = false := Bool.not_eq_true _ ▸ hnot
    apply (meets_safeRemove hat ht (hinactive rfl)).bind
    · rintro ⟨⟩ g₂ ⟨hg₂, hinactive₂⟩
      apply (meets_exists hg₂).bind
      · rintro found g₃ ⟨hg₃, hinactive₃⟩
        apply meets_ite
        · exact fun _ => meets_pure hg₃
        intro _
        apply (meets_unlinkInactive hg₃ ht (hinactive₃ _ hinactive₂)).bind
        · exact fun _ _ hg₄ => meets_pure hg₄
        · exact fun _ _ hg₄ => hg₄
      · exact fun _ _ hg₃ => hg₃.1
    · exact fun _ _ hg₂ => hg₂.1
  · exact fun _ _ hg₁ => hg₁.1.toStays.at hg

theorem meets_oldEnough {file : BaseName} {now : Rat} {hs : List Hold}
    (hg : g.At .janitor hs []) :
    Meets (protocol limit) I g (oldEnough maxTempAge (.base file) now)
      fun _ g' => g'.At .janitor hs [] := by
  apply meets_call_bind
  · exact fun _ h => nomatch h
  rintro (⟨mtime, inode⟩ | _ | _)
  · exact meets_pure hg
  · exact meets_pure hg
  · exact meets_pure hg

theorem meets_deleteMediaTarget {file : BaseName} {now : Rat} {requireOld : Bool}
    (hlimit : limit ≤ maxTempAge) (hg : g.At .janitor [] []) :
    Meets (protocol limit) I g (deleteMediaTarget maxTempAge (.base file) now requireOld)
      fun _ g' => g'.At .janitor [] [] := by
  apply meets_guarded hlimit hg
  intro h g₁ ht hg₁
  apply (meets_exists hg₁).bind
  · rintro found g₂ ⟨hg₂, -⟩
    apply meets_ite
    · intro _
      apply meets_ite
      · intro _
        apply (meets_oldEnough hg₂).bind
        · intro old g₃ hg₃
          exact meets_ite (fun _ => meets_purgeTarget hg₃ ht) (fun _ => meets_pure hg₃)
        · exact fun _ _ hg₃ => hg₃
      · exact fun _ => meets_purgeTarget hg₂ ht
    · exact fun _ => meets_pure hg₂
  · exact fun _ _ hg₂ => hg₂.1

theorem meets_cleanupInactiveLease (hlimit : limit ≤ maxTempAge) (hg : g.At .janitor [] []) :
    Meets (protocol limit) I g (cleanupInactiveLease maxTempAge target)
      fun _ g' => g'.At .janitor [] [] := by
  apply meets_guarded hlimit hg
  intro h g₁ ht hg₁
  apply (meets_isActiveMediaLease hg₁.role).bind
  · rintro active g₂ ⟨hg₂, hinactive⟩
    have hat := hg₂.toStays.at hg₁
    apply meets_ite
    · exact fun _ => meets_pure hat
    · intro hnot
      exact meets_unlinkInactive hat ht (hinactive (congrArg _ (Bool.not_eq_true _ ▸ hnot)))
  · exact fun _ _ hg₂ => hg₂.1.toStays.at hg₁

theorem meets_removeTemp {owner : String} {now : Rat} (hg : g.At .janitor [h] []) :
    Meets (protocol limit) I g (do
        match ← statFile (σ := Unit) (.temp target owner) with
        | .ok mtime _ =>
          if maxTempAge < now - mtime then safeRemove (.temp target owner) else pure ()
        | .notFound | .fault => pure ())
      fun _ g' => g'.At .janitor [h] [] := by
  apply meets_call_bind
  · exact fun _ h => nomatch h
  rintro (⟨mtime, inode⟩ | _ | _)
  · apply meets_ite
    · intro _
      apply (meets_exists (g := g) hg).bind
      · rintro found g₁ ⟨hg₁, -⟩
        apply meets_ite
        · intro _
          apply meets_call_bind trivial
          rintro (_ | _ | _)
          · exact meets_pure ⟨hg₁.role, hg₁.held, hg₁.onto⟩
          · exact meets_pure ⟨hg₁.role, hg₁.held, hg₁.onto⟩
          · exact meets_pure ⟨hg₁.role, hg₁.held, hg₁.onto⟩
        · exact fun _ => meets_pure hg₁
      · exact fun _ _ hg₁ => hg₁.1
    · exact fun _ => meets_pure hg
  · exact meets_pure hg
  · exact meets_pure hg

theorem meets_cleanupLeaseAuxiliary {name : Name} {now : Rat} (hlimit : limit ≤ maxTempAge)
    (hg : g.At .janitor [] []) :
    Meets (protocol limit) I g (cleanupLeaseAuxiliary maxTempAge name now)
      fun _ g' => g'.At .janitor [] [] := by
  cases name with
  | base file => exact meets_pure hg
  | lease target => exact meets_pure hg
  | lock target => exact meets_guarded hlimit hg fun _ _ _ hg₁ => meets_pure hg₁
  | temp target owner => exact meets_guarded hlimit hg fun _ _ _ hg₁ => meets_removeTemp hg₁

theorem meets_passClock {aggressive : Bool} {started : Rat} (hg : g.At .janitor [] []) :
    Meets (protocol limit) I g (if aggressive then readClock (σ := Unit) else pure started)
      fun _ g' => g'.At .janitor [] [] := by
  apply meets_ite
  · exact fun _ => meets_call trivial fun _ => ⟨hg.role, hg.held, hg.onto⟩
  · exact fun _ => meets_pure hg

theorem meets_cleanupMedia {file : BaseName} {aggressive : Bool} {started : Rat}
    (hlimit : limit ≤ maxTempAge) (hg : g.At .janitor [] []) :
    Meets (protocol limit) I g (if botCreated file.text then do
        if ← fileExists (.base file) then
          let now ← (if aggressive then readClock else pure started)
          let _ ← deleteMediaTarget maxTempAge (.base file) now (!aggressive)
          pure ()
        else pure ()
      else pure ()) fun _ g' => g'.At .janitor [] [] := by
    apply meets_ite
    · intro _
      apply (meets_exists hg).bind
      · rintro found g₁ ⟨hg₁, -⟩
        apply meets_ite
        · intro _
          apply (meets_passClock hg₁).bind
          · intro now g₂ hg₂
            apply (meets_deleteMediaTarget hlimit hg₂).bind
            · exact fun _ _ hg₃ => meets_pure hg₃
            · exact fun _ _ hg₃ => hg₃
          · exact fun _ _ hg₂ => hg₂
        · exact fun _ => meets_pure hg₁
      · exact fun _ _ hg₁ => hg₁.1
    · exact fun _ => meets_pure hg

theorem meets_removeFiles {names : List Name} (hnames : ∀ name ∈ names, name.inSlideshow = true)
    (hg : g.At .janitor [] []) :
    Meets (protocol limit) I g (removeFiles names) fun _ g' => g'.At .janitor [] [] := by
  induction names generalizing g with
  | nil => exact meets_pure hg
  | cons name names ih =>
    apply meets_call_bind
    · exact hnames name List.mem_cons_self
    intro response
    apply ih fun other hmem => hnames other (List.mem_cons_of_mem _ hmem)
    cases name with
    | lock target =>
      refine ⟨hg.role, ?_, fun rename hr => hg.onto rename (Option.filter_eq_some_iff.mp hr).1⟩
      show g.held.filter _ = []
      rw [hg.held, List.filter_nil]
    | base file | lease target | temp target owner => exact hg

theorem meets_rmtree {directory : BaseName} (hdirectory : directory.slideshow = true)
    (hg : g.At .janitor [] []) :
    Meets (protocol limit) I g (rmtree directory) fun _ g' => g'.At .janitor [] [] := by
  apply meets_call_bind trivial
  intro (names : List { name : Name // name.under directory = true })
  have hnames : ∀ name ∈ names.map Subtype.val, name.inSlideshow = true := by
    intro name hmem
    obtain ⟨entry, -, rfl⟩ := List.mem_map.mp hmem
    exact Name.inSlideshow_of_under hdirectory entry.2
  apply (meets_removeFiles hnames hg).bind
  · exact fun _ _ hg' => meets_call_bind trivial fun _ => meets_pure hg'
  · exact fun _ _ hg' => hg'

theorem meets_cleanupSlideshow {aggressive : Bool} {started : Rat} {directory : BaseName}
    (hdirectory : directory.slideshow = true) (hg : g.At .janitor [] []) :
    Meets (protocol limit) I g (cleanupSlideshow maxTempAge aggressive started directory)
      fun _ g' => g'.At .janitor [] [] := by
  apply meets_ite
  · exact fun _ => meets_rmtree hdirectory hg
  intro _
  apply meets_call_bind trivial
  rintro (_ | mtime)
  · exact meets_pure hg
  · exact meets_ite (fun _ => meets_rmtree hdirectory hg) (fun _ => meets_pure hg)

theorem meets_isSlideshow {file : BaseName} (hg : g.At .janitor [] []) :
    Meets (protocol limit) I g (isSlideshow file) fun found g' =>
      g'.At .janitor [] [] ∧ (found = .ok true → file.slideshow = true) := by
  apply meets_ite
  · exact fun hslideshow => meets_call trivial fun _ => ⟨hg, fun _ => hslideshow⟩
  · exact fun _ => meets_pure ⟨hg, fun h => absurd (Except.ok.inj h) (by simp)⟩

theorem meets_cleanupName {aggressive : Bool} {started : Rat} {name : Name}
    (hlimit : limit ≤ maxTempAge) (hg : g.At .janitor [] []) :
    Meets (protocol limit) I g (cleanupName maxTempAge aggressive started name)
      fun _ g' => g'.At .janitor [] [] := by
  have hauxiliary : Meets (protocol limit) I g (do
        let now ← (if aggressive then readClock else pure started)
        cleanupLeaseAuxiliary maxTempAge name now)
      fun _ g' => g'.At .janitor [] [] := by
    apply (meets_passClock hg).bind
    · exact fun _ _ hg₁ => meets_cleanupLeaseAuxiliary hlimit hg₁
    · exact fun _ _ hg₁ => hg₁
  cases name with
  | lock target => exact hauxiliary
  | temp target owner => exact hauxiliary
  | lease target => exact meets_cleanupInactiveLease hlimit hg
  | base file =>
    apply (meets_isSlideshow hg).bind
    · rintro found g₀ ⟨hg₀, hslideshow⟩
      apply meets_ite
      · exact fun hfound => meets_cleanupSlideshow (hslideshow (congrArg _ hfound)) hg₀
      intro _
      exact meets_cleanupMedia hlimit hg₀
    · exact fun _ _ hg₀ => hg₀.1

theorem meets_cleanupPass {aggressive : Bool} (hlimit : limit ≤ maxTempAge)
    (hg : g.At .janitor [] []) :
    Meets (protocol limit) I g (cleanupPass maxTempAge aggressive)
      fun _ g' => g'.At .janitor [] [] := by
  apply meets_call_bind trivial
  intro (started : Rat)
  have hstarted : ({ g with clock := some started } : Know).At .janitor [] [] :=
    ⟨hg.role, hg.held, hg.onto⟩
  have hnames : ∀ (names : List Name) (g' : Know), g'.At .janitor [] [] →
      Meets (protocol limit) I g' (cleanupNames maxTempAge aggressive started names)
        fun _ g'' => g''.At .janitor [] [] := by
    intro names
    induction names with
    | nil => exact fun _ hg' => meets_pure hg'
    | cons name names ih =>
      intro g' hg'
      exact (meets_cleanupName hlimit hg').bind (fun _ _ => ih _) (fun _ _ hg'' => hg'')
  apply meets_call_bind trivial
  rintro (_ | names)
  · exact meets_throw hstarted
  · exact hnames names _ hstarted

theorem meets_janitor (passes : List Bool) (hlimit : limit ≤ maxTempAge)
    (hg : g.At .janitor [] []) :
    Meets (protocol limit) I g (janitor maxTempAge passes) fun _ g' => g'.At .janitor [] [] := by
  induction passes generalizing g with
  | nil => exact meets_pure hg
  | cons aggressive passes ih =>
    exact (meets_cleanupPass hlimit hg).capture_bind fun _ _ hg' => ih hg'

end Janitor

end YtdlBot.Leases
