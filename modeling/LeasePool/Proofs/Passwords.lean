import Mathlib.Data.List.Forall2
import LeasePool.Proofs.Origins
import LeasePool.Proofs.RenamedTurns

/-!
# Passwords

A pool hands its data source on to the factory, and it digests passwords into signatures, which it
compares. It does nothing else with them. So a run in which every password has another one in its
place looks the same from outside, if different passwords stay different, and if the digest has no
collision on what is digested in either run. Only the signatures are other ones, and the password of
the data source when a caller asks for it.

* `Run.digested`: what is digested in a run;
* `Run.Of.follow_under`: a run goes on under a renaming as it does without;
* `Pool.blind_to_passwords`: what can be seen of a run does not depend on the passwords.
-/

namespace LeasePool

/-! ## Credentials under other passwords -/

section

variable {password : String → String} {cs : List Credentials} {c d : Credentials}

theorem Credentials.under_injective (injective : Function.Injective password) :
    Function.Injective (Credentials.under password) := by
  intro c d same
  obtain ⟨url, username, word⟩ := c
  obtain ⟨url', username', word'⟩ := d
  simp only [under, Credentials.mk.injEq] at same ⊢
  exact ⟨same.1, same.2.1, Option.map_injective injective same.2.2⟩

/-- Signatures are equal under other passwords just where they are equal, if the digest tells both
    the credentials and the renamed ones apart. -/
theorem ToldApart.signature_under_iff (apart : ToldApart cs)
    (apart' : ToldApart (cs.map (·.under password))) (injective : Function.Injective password)
    (hc : c ∈ cs) (hd : d ∈ cs) :
    (c.under password).signature = (d.under password).signature ↔ c.signature = d.signature := by
  constructor
  · intro same
    have renamed := apart'.eq_of_signature (List.mem_map_of_mem hc) (List.mem_map_of_mem hd) same
    rw [Credentials.under_injective injective renamed]
  · intro same
    rw [apart.eq_of_signature hc hd same]

/-- The renaming that gives to the signatures of some credentials those of the renamed ones. -/
def Renaming.ofCredentials (password : String → String) (cs : List Credentials) : Renaming where
  password := password
  signature s :=
    match cs.find? fun c => c.signature = s with
    | some c => (c.under password).signature
    | none => s

/-- If the credentials are told apart, the renaming that is made from them fits each of them. -/
theorem ToldApart.fits_ofCredentials (apart : ToldApart cs) (password : String → String)
    (hc : c ∈ cs) : (Renaming.ofCredentials password cs).Fits c := by
  have found : (cs.find? fun d => d.signature = c.signature) = some c := by
    cases first : cs.find? fun d => d.signature = c.signature with
    | none => exact absurd (decide_eq_true rfl) (List.find?_eq_none.1 first c hc)
    | some d =>
      have same := List.find?_some first
      rw [decide_eq_true_eq] at same
      rw [apart.eq_of_signature (List.mem_of_find?_eq_some first) hc same]
  simp only [Renaming.Fits, Renaming.ofCredentials, found]

/-- A renaming fits some credentials, and leaves their signatures equal or different. -/
structure Renaming.Respects (ρ : Renaming) (cs : List Credentials) : Prop where
  fits : ∀ c ∈ cs, ρ.Fits c
  tells : ∀ c ∈ cs, ∀ d ∈ cs, ρ.Tells c.signature d.signature

theorem Renaming.Respects.mono {ρ : Renaming} {ds : List Credentials} (h : ρ.Respects cs)
    (sub : ds ⊆ cs) : ρ.Respects ds :=
  ⟨fun c hc => h.fits c (sub hc), fun c hc d hd => h.tells c (sub hc) d (sub hd)⟩

end

/-! ## What is digested -/

/-- The credentials for which a connection is handed out in a turn, if one is. -/
def Move.lent? (v : Move) : Option Credentials :=
  match v.before.holder, v.issued? with
  | some (_, w), some _ => w.login?.map fun l => l.credentials v.before.books.source
  | _, _ => none

/-- What has been digested in a run, the latest first: the credentials of the data source, as it is
    and as it has been, and those for which connections have been handed out. -/
def Run.digested (r : Run) : List Credentials :=
  r.pool.books.source.credentials :: r.moves.flatMap fun v =>
    v.lent?.toList ++ [v.before.books.source.credentials]

theorem Work.login?_under {ρ : Renaming} (w : Work) :
    (w.under ρ).login? = w.login?.map (·.under ρ) := by
  cases w with
  | begin intent => cases intent <;> rfl
  | _ => rfl

namespace Move

variable {ρ : Renaming} (v : Move)

theorem issued?_under : (v.under ρ).issued? = v.issued?.map (·.under ρ) := by
  simp only [issued?, under, Turn.under]
  cases v.turn.outcome with
  | none => rfl
  | some o => cases o <;> rfl

/-- The same turns hand out a connection, with the renamed credentials. -/
theorem lent?_under : (v.under ρ).lent? = v.lent?.map (·.under ρ.password) := by
  have holder : (v.under ρ).before.holder = v.before.holder.map fun q => (q.1, q.2.under ρ) := rfl
  simp only [lent?, issued?_under, holder]
  cases v.before.holder with
  | none => rfl
  | some q =>
    cases v.issued? with
    | none => rfl
    | some y =>
      obtain ⟨i, w⟩ := q
      simp only [Option.map_some, Work.login?_under]
      cases w.login? with
      | none => rfl
      | some l => exact congrArg some (l.credentials_under v.before.books.source)

end Move

namespace Run

variable {ρ : Renaming} {id : PoolId} {source : DataSource} {policy : Policy} {r : Run} {e : Event}
  {t : Turn}

theorem digested_move : (r.move e t).digested =
    t.pool.books.source.credentials :: ((Move.lent? ⟨r.pool, e, t⟩).toList ++ r.digested) := by
  simp only [digested, pool_move, moves_move, List.flatMap_cons, List.append_assoc,
    List.singleton_append]

theorem digested_subset_extend (r : Run) (e : Event) : r.digested ⊆ (r.extend e).digested := by
  rw [extend]
  split
  · rw [digested_move]
    exact fun c hc => List.mem_cons_of_mem _ (List.mem_append_right _ hc)
  · exact fun c hc => hc

theorem digested_subset_follow (r : Run) (events : List Event) :
    r.digested ⊆ (r.follow events).digested := by
  induction events generalizing r with
  | nil => exact fun c hc => hc
  | cons e events ih => exact fun c hc => ih (r.extend e) (digested_subset_extend r e hc)

/-- Under a renaming, the renamed credentials are digested. -/
theorem digested_under (r : Run) : (r.under ρ).digested = r.digested.map (·.under ρ.password) := by
  simp only [digested, under, List.map_cons, List.map_flatMap, List.flatMap_map, List.map_append,
    List.map_nil]
  refine congrArg (List.cons _) (List.flatMap_congr fun v _ => ?_)
  rw [Move.lent?_under]
  cases v.lent? <;> rfl

namespace Of

/-- What a connection is handed out for is digested in that turn. -/
theorem lent?_of_issued (ht : r.pool.respond e = some t) {y : Handle}
    (issued : Move.issued? ⟨r.pool, e, t⟩ = some y) :
    ∃ c, Move.lent? ⟨r.pool, e, t⟩ = some c ∧ y.signature = c.signature := by
  obtain ⟨m, w, s, x, goes, lends⟩ := (Pool.responds_of_respond ht).lends issued
  obtain ⟨l, login, signature⟩ := lends.signature
  have holds : r.pool.holder = some (_, w) := goes.holds
  have same : t.pool.books.source = r.pool.books.source := by
    obtain same | ⟨_, _, change, _, redirects⟩ := Pool.source_of_respond ht
    · exact same
    · cases holds.symm.trans redirects
      cases login
  refine ⟨l.credentials r.pool.books.source, ?_, ?_⟩
  · simp only [Move.lent?, holds, issued, login, Option.map_some]
  · rw [signature, same]
    cases l <;> rfl

/-- What is leased bears a signature that has been digested. -/
theorem digested_active (h : Of (.opened id source policy) r) {x : Entry}
    (hx : x ∈ r.pool.books.active) : ∃ c ∈ r.digested, x.signature = c.signature := by
  induction h with
  | start => cases hx
  | @move r e t h ht ih =>
    rw [digested_move]
    obtain old | ⟨y, issued, rfl⟩ := Pool.mem_active_of_respond ht hx
    · obtain ⟨c, hc, same⟩ := ih old
      exact ⟨c, List.mem_cons_of_mem _ (List.mem_append_right _ hc), same⟩
    · obtain ⟨c, lent, same⟩ := lent?_of_issued ht issued
      refine ⟨c, List.mem_cons_of_mem _ (List.mem_append_left _ ?_), same⟩
      rw [lent]
      exact List.mem_singleton_self c

/-- A renaming that respects what is digested fits every turn. -/
theorem fitsTurn (h : Of (.opened id source policy) r) {i : CallId} {w : Work}
    (holds : r.pool.holder = some (i, w)) (respects : ρ.Respects (r.move e t).digested) :
    ρ.FitsTurn r.pool w t := by
  rw [digested_move] at respects
  have before : ρ.Respects r.digested := respects.mono fun c hc =>
    List.mem_cons_of_mem _ (List.mem_append_right _ hc)
  -- Signatures matter in three places: at a hand-out, at a release and at a reset. In each the
  -- credentials are among those digested by then.
  refine ⟨fun l login y issued => ?_, fun x hx => ?_, respects.fits _ List.mem_cons_self⟩
  · have lent : Move.lent? ⟨r.pool, e, t⟩ = some (l.credentials r.pool.books.source) := by
      simp only [Move.lent?, Move.issued?, holds, issued, login, Option.bind_some, Outcome.handle?,
        Option.map_some]
    refine respects.fits _ (List.mem_cons_of_mem _ (List.mem_append_left _ ?_))
    rw [lent]
    exact List.mem_singleton_self _
  · obtain ⟨c, hc, same⟩ := h.digested_active hx
    have expected : r.pool.books.expected = r.pool.books.source.credentials.signature :=
      h.settled.expected
    rw [same, expected]
    exact before.tells c hc _ List.mem_cons_self

/-! ## Runs under a renaming -/

theorem extend_under (h : Of (.opened id source policy) r)
    (respects : ρ.Respects (r.extend e).digested) :
    (r.under ρ).extend (e.under ρ) = (r.extend e).under ρ := by
  have responds : (r.pool.under ρ).respond (e.under ρ) = (r.pool.respond e).map (·.under ρ) := by
    refine Pool.respond_under e fun i s m w t _ holds ht => h.fitsTurn (e := e) holds ?_
    rwa [extend, ht] at respects
  simp only [extend, under, responds]
  cases r.pool.respond e <;> rfl

/-- What follows under a renaming is what follows without, under the renaming. -/
theorem follow_under (h : Of (.opened id source policy) r) (events : List Event)
    (respects : ρ.Respects (r.follow events).digested) :
    (r.under ρ).follow (events.map (·.under ρ)) = (r.follow events).under ρ := by
  induction events generalizing r with
  | nil => rfl
  | cons e events ih =>
    have next : (r.under ρ).extend (e.under ρ) = (r.extend e).under ρ :=
      h.extend_under (respects.mono (digested_subset_follow _ events))
    change ((r.under ρ).extend (e.under ρ)).follow _ = _
    rw [next]
    exact ih (h.follow [e]) respects

end Of

end Run

/-- The renamed pool makes the renamed run of the renamed events. -/
theorem Pool.run_under {ρ : Renaming} (id : PoolId) (source : DataSource) (policy : Policy)
    (events : List Event) (respects : ρ.Respects ((opened id source policy).run events).digested) :
    (opened id (source.under ρ) policy).run (events.map (·.under ρ)) =
      ((opened id source policy).run events).under ρ := by
  have fits : ρ.Fits source.credentials :=
    respects.fits _ (Run.digested_subset_follow (.start (opened id source policy)) events
      List.mem_cons_self)
  rw [← opened_under fits]
  exact Run.Of.start.follow_under events respects

/-! ## What can be seen -/

/-- What can be seen of two turns is the same, but for passwords and signatures. -/
structure Renaming.Matches (ρ : Renaming) (v v' : Move) : Prop where
  /-- It is the turn of the same call, at the same moment. -/
  caller : v'.caller = v.caller
  moment : v'.moment? = v.moment?
  /-- The same is asked of the factory and of the connections, and every call waits for the same.
      The factory is given the data source. -/
  asked : v'.asked? = v.asked?.map (·.under ρ)
  awaited : ∀ i, v'.after.awaited? i = (v.after.awaited? i).map (·.under ρ)
  notices : v'.turn.notices = v.turn.notices
  woken : v'.turn.woken = v.turn.woken
  /-- A handle that is handed out differs in its signature only, and a data source that a caller has
      asked for in its password only. Otherwise a call ends just as it does. -/
  leased : ∀ h, v.turn.outcome = some (.leased h) →
    v'.turn.outcome = some (.leased { h with signature := ρ.signature h.signature })
  source : ∀ s, v.turn.outcome = some (.source s) →
    v'.turn.outcome = some (.source { s with password := s.password.map ρ.password })
  outcome : (∀ h, v.turn.outcome ≠ some (.leased h)) → (∀ s, v.turn.outcome ≠ some (.source s)) →
    v'.turn.outcome = v.turn.outcome
  policy : v'.after.books.policy = v.after.books.policy
  nextConnection : v'.after.nextConnection = v.after.nextConnection
  generations : v'.after.generations = v.after.generations
  snapshot : v'.after.snapshot = v.after.snapshot
  inspection : v'.after.inspection = v.after.inspection
  /-- The data source in the books, of which a caller who asks for it is given a copy. -/
  sourceInspection : v'.after.books.source.inspection = v.after.books.source.inspection

theorem DataSource.inspection_under {ρ : Renaming} (s : DataSource) :
    (s.under ρ).inspection = s.inspection := by
  obtain ⟨_, _, _, password, _, _, _, _⟩ := s
  cases password <;> rfl

theorem Pool.asking?_under {ρ : Renaming} (p : Pool) (i : CallId) :
    (p.under ρ).asking? i = (p.asking? i).map (·.under ρ) := by
  simp only [asking?, awaited?_under]
  cases p.awaited? i with
  | none => rfl
  | some awaited => cases awaited <;> rfl

namespace Move

variable {ρ : Renaming} (v : Move)

theorem asked?_under : (v.under ρ).asked? = v.asked?.map (·.under ρ) := by
  obtain ⟨p, e, t⟩ := v
  cases e with
  | resume i s m => exact Pool.asking?_under t.pool i
  | _ => rfl

/-- A turn and the renamed one look the same from outside. -/
theorem matches_under : ρ.Matches v (v.under ρ) := by
  obtain ⟨p, e, t⟩ := v
  have outcome : (t.under ρ).outcome = t.outcome.map (·.under ρ) := rfl
  exact {
    caller := by cases e <;> rfl
    moment := by cases e <;> rfl
    asked := asked?_under _
    awaited := fun i => Pool.awaited?_under
    notices := rfl
    woken := rfl
    leased := fun h leased => by
      change (t.under ρ).outcome = _
      rw [outcome, leased]
      rfl
    source := fun s asked => by
      change (t.under ρ).outcome = _
      rw [outcome, asked]
      rfl
    outcome := fun not_leased not_source => by
      change (t.under ρ).outcome = t.outcome
      rw [outcome]
      cases ended : t.outcome with
      | none => rfl
      | some o =>
        cases o with
        | leased h => exact absurd ended (not_leased h)
        | source s => exact absurd ended (not_source s)
        | _ => rfl
    policy := rfl
    nextConnection := rfl
    generations := rfl
    snapshot := Books.snapshot_under _ _
    inspection := rfl
    sourceInspection := DataSource.inspection_under _ }

end Move

/-- What can be seen of two runs is the same, but for passwords and signatures. -/
structure Renaming.Carries (ρ : Renaming) (r r' : Run) : Prop where
  pool : r'.pool = r.pool.under ρ
  moves : List.Forall₂ ρ.Matches r.moves r'.moves
  /-- Handles are as valid, and their connections as closed. -/
  handles : ∀ (h : Handle) (m : Moment),
    (h.under ρ).isValid r'.pool.generations = h.isValid r.pool.generations ∧
      (h.under ρ).isClosed r'.pool.generations m = h.isClosed r.pool.generations m ∧
      (h.under ρ).isAutoCommit r'.pool.generations m = h.isAutoCommit r.pool.generations m
  /-- The renamed credentials are digested, and their signatures are equal where they were. -/
  digested : r'.digested = r.digested.map (·.under ρ.password)
  signatures : ∀ c ∈ r.digested, ∀ d ∈ r.digested,
    (c.under ρ.password).signature = (d.under ρ.password).signature ↔ c.signature = d.signature

/-- What can be seen of a run does not depend on the passwords. Where each password has another one
    in its place, and different ones have different ones, the signatures of the renamed credentials
    take the place of the signatures, and everything else is the same. -/
theorem Pool.blind_to_passwords (id : PoolId) (source : DataSource) (policy : Policy)
    (events : List Event) {password : String → String} (injective : Function.Injective password)
    (apart : ToldApart ((opened id source policy).run events).digested)
    (apart' : ToldApart (((opened id source policy).run events).digested.map (·.under password))) :
    (∃ ρ : Renaming, ρ.password = password ∧
      ∀ c ∈ ((opened id source policy).run events).digested, ρ.Fits c) ∧
    ∀ ρ : Renaming, ρ.password = password →
      (∀ c ∈ ((opened id source policy).run events).digested, ρ.Fits c) →
      ρ.Carries ((opened id source policy).run events)
        ((opened id (source.under ρ) policy).run (events.map (·.under ρ))) := by
  refine ⟨⟨.ofCredentials password _, rfl, fun c hc => apart.fits_ofCredentials password hc⟩, ?_⟩
  rintro ρ rfl fits
  -- On what is digested, the renamed credentials have the same signatures exactly if the
  -- credentials have.
  have signatures : ∀ c ∈ ((opened id source policy).run events).digested,
      ∀ d ∈ ((opened id source policy).run events).digested,
        (c.under ρ.password).signature = (d.under ρ.password).signature ↔
          c.signature = d.signature :=
    fun c hc d hd => apart.signature_under_iff apart' injective hc hd
  have respects : ρ.Respects ((opened id source policy).run events).digested := by
    refine ⟨fits, fun c hc d hd => ?_⟩
    rw [Renaming.Tells, ← fits c hc, ← fits d hd]
    exact signatures c hc d hd
  rw [run_under id source policy events respects]
  exact {
    pool := rfl
    moves := List.forall₂_map_right_iff.2 (List.forall₂_same.2 fun v _ => v.matches_under)
    handles := fun h m => ⟨rfl, rfl, rfl⟩
    digested := Run.digested_under _
    signatures := signatures }

/-! ## A guest and a new password -/

/-- A connection is handed out to a guest, and then the data source is given another password. -/
def Event.guest : List Event :=
  [.start (.acquire (.as "guest" "welcome") none) (.plain 0 false),
    .resume 0 .proceed (.plain 0 false), .resume 0 (.connected (.ok ⟨0⟩)) (.plain 0 false),
    .resume 0 (.answered (.ok ())) (.plain 0 false),
    .start (.reset (.redirect (.password (some "sesame")))) (.plain 1 false),
    .resume 1 .proceed (.plain 1 false), .resume 1 (.answered (.ok ())) (.plain 1 false),
    .resume 1 (.answered (.ok ())) (.plain 1 false)]

/-- Three passwords are digested: that of the data source, that of the guest and the new one. -/
theorem Pool.blind_to_passwords_guest :
    let source : DataSource := { url := "db", username := some "app", password := some "secret" }
    let r := (opened 0 source .single).run Event.guest
    Function.Injective ("x" ++ ·) ∧ ToldApart r.digested ∧
      ToldApart (r.digested.map (·.under ("x" ++ ·))) ∧
      (∀ c ∈ [⟨"db", some "app", some "secret"⟩, ⟨"db", some "guest", some "welcome"⟩,
        ⟨"db", some "app", some "sesame"⟩], c ∈ r.digested) ∧
      ∃ ρ : Renaming, ρ.password = ("x" ++ ·) ∧
        ρ.Carries r ((opened 0 (source.under ρ) .single).run (Event.guest.map (·.under ρ))) := by
  intro source r
  have all : r.digested ⊆ [⟨"db", some "app", some "secret"⟩, ⟨"db", some "guest", some "welcome"⟩,
      ⟨"db", some "app", some "sesame"⟩] := by decide
  have injective : Function.Injective ("x" ++ ·) := fun _ _ => (String.append_right_inj "x").1
  have apart : ToldApart r.digested := .mono (by decide +kernel) all
  have apart' : ToldApart (r.digested.map (·.under ("x" ++ ·))) :=
    .mono (by decide +kernel) (List.map_subset _ all)
  obtain ⟨⟨ρ, same, fits⟩, carries⟩ :=
    blind_to_passwords 0 source .single Event.guest injective apart apart'
  exact ⟨injective, apart, apart', by decide, ρ, same, carries ρ same fits⟩

end LeasePool
